import ApiUnion.ClassFile.Error
import ApiUnion.Signature.Printer

-- Reading signatures. A parser takes a prefix of the text and leaves the rest. Nested types are
-- read by a parser that is handed down; each level of nesting takes a character, so the length of
-- the text bounds the depth, and likewise the length of any list.

namespace ApiUnion

namespace Signature

abbrev Parser (α : Type) := List Char → Option (α × List Char)

-- A name up to one of the `stops`, which has to follow. Anything else may stand in a name.
def identifier? (stops : List Char) : Parser String := fun input =>
  let name := input.takeWhile fun c => !stops.contains c
  match input.dropWhile fun c => !stops.contains c with
  | [] => none
  | rest => if name.isEmpty then none else some (String.ofList name, rest)

def expect? (c : Char) : List Char → Option (List Char)
  | [] => none
  | d :: rest => if c = d then some rest else none

-- Items after those found, up to a closing character.
def itemsTo? {α : Type} (stop : Char) (item : Parser α) :
    Nat → List α → Parser (List α)
  | 0, _, _ => none
  | _ + 1, _, [] => none
  | fuel + 1, found, c :: rest =>
    if c = stop then some (found.reverse, rest)
    else do
      let (value, rest) ← item (c :: rest)
      itemsTo? stop item fuel (value :: found) rest

def upTo? {α : Type} (stop : Char) (item : Parser α) : Parser (List α) := fun input =>
  itemsTo? stop item input.length [] input

-- Items after those found, as long as each is announced by a character.
def itemsAfter? {α : Type} (sign : Char) (item : Parser α) :
    Nat → List α → Parser (List α)
  | 0, found, input => some (found.reverse, input)
  | fuel + 1, found, input =>
    match expect? sign input with
    | none => some (found.reverse, input)
    | some rest => do
      let (value, rest) ← item rest
      itemsAfter? sign item fuel (value :: found) rest

def announced? {α : Type} (sign : Char) (item : Parser α) : Parser (List α) := fun input =>
  itemsAfter? sign item input.length [] input

def argument? (reference : Parser GenericType) : Parser TypeArgument
  | '*' :: rest => some (.any, rest)
  | '+' :: rest => do
    let (bound, rest) ← reference rest
    pure (.bounded .covariant bound, rest)
  | '-' :: rest => do
    let (bound, rest) ← reference rest
    pure (.bounded .contravariant bound, rest)
  | input => do
    let (bound, rest) ← reference input
    pure (.bounded .exact bound, rest)

-- Arguments are left out altogether or there is one at least.
def arguments? (reference : Parser GenericType) : Parser (List TypeArgument)
  | '<' :: rest => do
    let (arguments, rest) ← upTo? '>' (argument? reference) rest
    if arguments.isEmpty then none else pure (arguments, rest)
  | input => some ([], input)

def segmentsAfter? (reference : Parser GenericType) :
    Nat → List Segment → Parser ClassType
  | 0, _, _ => none
  | fuel + 1, found, input => do
    let (name, rest) ← identifier? ['<', '.', ';'] input
    let (arguments, rest) ← arguments? reference rest
    let found := ⟨name, arguments⟩ :: found
    match rest with
    | '.' :: rest => segmentsAfter? reference fuel found rest
    | ';' :: rest => pure (found.reverse, rest)
    | _ => none

def classType? (reference : Parser GenericType) : Parser ClassType
  | 'L' :: rest => segmentsAfter? reference rest.length [] rest
  | _ => none

def anyType? (reference : Parser GenericType) : Parser GenericType
  | [] => none
  | c :: rest =>
    match BaseType.ofLetter? c with
    | some type => some (.base type, rest)
    | none => reference (c :: rest)

def referenceWith? (reference : Parser GenericType) : Parser GenericType
  | 'T' :: rest => do
    let (name, rest) ← identifier? [';'] rest
    pure (.var name, ← expect? ';' rest)
  | '[' :: rest => do
    let (component, rest) ← anyType? reference rest
    pure (.array component, rest)
  | input => do
    let (segments, rest) ← classType? reference input
    pure (.classType segments, rest)

-- A reference type of at most `depth` levels: a class, an array or a type variable.
def reference? : Nat → Parser GenericType
  | 0, _ => none
  | depth + 1, input => referenceWith? (reference? depth) input

def classBound? (reference : Parser GenericType) : Parser (Option GenericType)
  | ':' :: rest => some (none, ':' :: rest)
  | input => do
    let (bound, rest) ← reference input
    pure (some bound, rest)

def typeParameter? (reference : Parser GenericType) : Parser TypeParameter := fun input => do
  let (name, rest) ← identifier? [':'] input
  let rest ← expect? ':' rest
  let (classBound, rest) ← classBound? reference rest
  let (interfaceBounds, rest) ← announced? ':' reference rest
  pure (⟨name, classBound, interfaceBounds⟩, rest)

def typeParameters? (reference : Parser GenericType) : Parser (List TypeParameter)
  | '<' :: rest => do
    let (parameters, rest) ← upTo? '>' (typeParameter? reference) rest
    if parameters.isEmpty then none else pure (parameters, rest)
  | input => some ([], input)

def result? (reference : Parser GenericType) : Parser (Option GenericType)
  | 'V' :: rest => some (none, rest)
  | input => do
    let (type, rest) ← anyType? reference input
    pure (some type, rest)

-- Items after those found, to the end of the text.
def itemsToEnd? {α : Type} (item : Parser α) : Nat → List α → List Char → Option (List α)
  | _, found, [] => some found.reverse
  | 0, _, _ => none
  | fuel + 1, found, input => do
    let (value, rest) ← item input
    itemsToEnd? item fuel (value :: found) rest

def toEnd? {α : Type} (item : Parser α) (input : List Char) : Option (List α) :=
  itemsToEnd? item input.length [] input

-- A whole text.
def complete? {α : Type} (item : Parser α) (input : List Char) : Option α :=
  match item input with
  | some (value, []) => some value
  | _ => none

end Signature

open Signature

def GenericType.ofChars? (input : List Char) : Option GenericType :=
  complete? (reference? input.length) input

def MethodSignature.ofChars? (input : List Char) : Option MethodSignature := do
  let reference := reference? input.length
  let (typeParameters, rest) ← typeParameters? reference input
  let rest ← expect? '(' rest
  let (parameters, rest) ← upTo? ')' (anyType? reference) rest
  let (result, rest) ← result? reference rest
  let (throws, rest) ← announced? '^' reference rest
  if rest.isEmpty then pure ⟨typeParameters, parameters, result, throws⟩ else none

def ClassSignature.ofChars? (input : List Char) : Option ClassSignature := do
  let reference := reference? input.length
  let (typeParameters, rest) ← typeParameters? reference input
  let (superclass, rest) ← classType? reference rest
  let interfaces ← toEnd? (classType? reference) rest
  pure ⟨typeParameters, superclass, interfaces⟩

-- The signature of a field, which is a reference type.
def GenericType.ofText (text : String) : Except ClassFileError GenericType :=
  (ofChars? text.toList).elim (.error (.invalidSignature text)) .ok

def MethodSignature.ofText (text : String) : Except ClassFileError MethodSignature :=
  (ofChars? text.toList).elim (.error (.invalidSignature text)) .ok

def ClassSignature.ofText (text : String) : Except ClassFileError ClassSignature :=
  (ofChars? text.toList).elim (.error (.invalidSignature text)) .ok

end ApiUnion
