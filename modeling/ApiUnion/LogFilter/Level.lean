import ApiUnion.Text.Decimal

-- Levels of the log, from nothing kept to everything kept.

namespace ApiUnion

inductive LogLevel
  | off | error | warn | info | debug | trace
deriving DecidableEq, Repr

namespace LogLevel

def name : LogLevel → String
  | off => "off"
  | error => "error"
  | warn => "warn"
  | info => "info"
  | debug => "debug"
  | trace => "trace"

def all : List LogLevel :=
  [off, error, warn, info, debug, trace]

def rank : LogLevel → Nat
  | off => 0
  | error => 1
  | warn => 2
  | info => 3
  | debug => 4
  | trace => 5

-- Levels go by their rank and by their name in any case. No rank is below zero, written with a
-- minus sign or without.
def ofChars? (text : List Char) : Option LogLevel :=
  let rank? := if text.head? = some '-' then none else Text.integerOf? text
  all.find? fun level =>
    rank? = some (level.rank : Int) || level.name = (String.ofList text).toLower

end LogLevel

end ApiUnion
