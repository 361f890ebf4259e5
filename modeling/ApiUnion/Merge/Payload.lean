import ApiUnion.Model.Basic
import ApiUnion.Text.Quoted
import ApiUnion.Text.ShortestDecimal

-- Values as they are shown in the messages of conflicts.

namespace ApiUnion

open Text

def shownText? : Option String → String
  | none => "None"
  | some text => s!"Some({quoted text})"

def shownList (items : List String) : String :=
  "[" ++ ", ".intercalate items ++ "]"

def Constant.shown : Constant → String
  | byte value => s!"Byte({value.toInt})"
  | char value => s!"Char({quotedChar value})"
  | short value => s!"Short({value.toInt})"
  | int value => s!"Int({value.toInt})"
  | long value => s!"Long({value.toInt})"
  | float bits => s!"Float({floatText singleFormat bits.toNat})"
  | double bits => s!"Double({floatText doubleFormat bits.toNat})"
  | boolean value => s!"Boolean({value})"
  | string value => s!"String({quoted value})"

mutual

def ElementValue.shown : ElementValue → String
  | .constant value => s!"Const({value.shown})"
  | .enumConstant type name =>
    s!"Enum \x7b type_descriptor: {quoted type}, const_name: {quoted name} \x7d"
  | .classLiteral descriptor => s!"Class({quoted descriptor})"
  | .nested value => s!"Annotation({AnnotationValue.shown value})"
  | .array values => s!"Array({shownList (shownValues values)})"

def AnnotationValue.shown : AnnotationValue → String
  | ⟨type, elements, className⟩ =>
    "Annotation \x7b type_descriptor: " ++ quoted type ++ ", type_internal_name: " ++
      shownText? className ++ ", elements: " ++ shownList (shownElements elements) ++
      " \x7d"

def shownValues : List ElementValue → List String
  | [] => []
  | value :: rest => value.shown :: shownValues rest

def shownElements : List (String × ElementValue) → List String
  | [] => []
  | (name, value) :: rest => s!"({quoted name}, {value.shown})" :: shownElements rest

end

def EnclosingMethod.shown (enclosing : EnclosingMethod) : String :=
  s!"EnclosingMethod \x7b class: {quoted enclosing.owner}, " ++
    s!"method_name: {shownText? enclosing.name}, " ++
    s!"method_descriptor: {shownText? enclosing.descriptor} \x7d"

def EnclosingMethod.shown? : Option EnclosingMethod → String
  | none => "None"
  | some enclosing => s!"Some({enclosing.shown})"

def InnerRef.shown (inner : InnerRef) : String :=
  s!"InnerClassRef \x7b outer: {shownText? inner.outer}, " ++
    s!"inner_name: {shownText? inner.innerName}, access: {inner.access.toNat} \x7d"

end ApiUnion
