import ChartParser.Grammar.Basic

namespace ChartParser

/-- A signed 64-bit number, whose arithmetic wraps around, or a text. -/
inductive Datum where
  | number (value : Int64)
  | text (value : String)

/-- The number that digits write, or nothing if there is another character. -/
def decimal? (digits : List Char) : Option Nat :=
  digits.foldlM
    (fun number digit =>
      if digit.isDigit then some (10 * number + (digit.toNat - '0'.toNat)) else none) 0

/-- An integer is written with at least one digit and at most one sign, and has to fit into 64
bits. -/
def integer? (text : String) : Option Int64 :=
  let (negative, digits) := match text.toList with
    | '-' :: digits => (true, digits)
    | '+' :: digits => (false, digits)
    | digits => (false, digits)
  if digits.isEmpty then none
  else (decimal? digits).bind fun number =>
    let value : Int := if negative then -number else number
    if -9223372036854775808 ≤ value ∧ value ≤ 9223372036854775807 then some (Int64.ofInt value)
    else none

namespace Value

/-- The value as a text: a number is written in decimal. -/
def asText : Value Datum → String
  | .lexeme text => text
  | .action (.text text) => text
  | .action (.number number) => toString number.toInt

/-- The value as a number: a text that writes none counts as zero. -/
def asNumber : Value Datum → Int64
  | .lexeme text => (integer? text).getD 0
  | .action (.text text) => (integer? text).getD 0
  | .action (.number number) => number

end Value

inductive StockAction where
  | count
  | sum
  | successor
  | add
  | subtract
  | multiply
  | concatenate
  | tree (rule : String)
  | constant (datum : Datum)
  | argument (place : Nat)

namespace StockAction

def outer (combine : Int64 → Int64 → Int64) : Action Datum
  | first :: _ :: third :: _ => some (.number (combine first.asNumber third.asNumber))
  | _ => none

def total (values : List (Value Datum)) : Int64 := (values.map Value.asNumber).foldl (· + ·) 0

def run : StockAction → Action Datum
  | count, values => some (.number (Int64.ofNat values.length))
  | sum, values => some (.number (total values))
  | successor, values => some (.number (1 + total values))
  | add, values => outer (· + ·) values
  | subtract, values => outer (· - ·) values
  | multiply, values => outer (· * ·) values
  | concatenate, values => some (.text (String.join (values.map Value.asText)))
  | tree rule, values =>
    some (.text (rule ++ "(" ++ ",".intercalate (values.map Value.asText) ++ ")"))
  | constant datum, _ => some datum
  | argument place, values => some (.text ((values[place]?.map Value.asText).getD ""))

end StockAction

end ChartParser
