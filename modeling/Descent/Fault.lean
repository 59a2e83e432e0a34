import Descent.Text

/-!
# Faults

A `Fault` says why a computation inside a parse could not give a value. It is not a parse failure:
no alternative is tried after it.
-/

namespace Descent

inductive Fault where
  | endOfText
  /-- An integer numeral, to be read or to be written, has more digits than are allowed. -/
  | numeralTooLong
  | notNumeral
  | zeroDivisor
  | floatZeroDivisor
  | integerTooLarge
  | quotientTooLarge
  /-- Infinity has no integral part. -/
  | infiniteInteger
  /-- A sequence is to be repeated more often than can be counted. -/
  | countTooLarge
  /-- A repeated text is longer than any text can be. -/
  | textTooLong
  | outOfMemory
  /-- An operator or a reference has no meaning. -/
  | unknown (name : Text)
  | wrongOperand
  | notExpression
  | emptySequence
  /-- A value is nested too deeply to be worked on. -/
  | tooDeep
  /-- A callback gave up because its argument is nested too deeply. -/
  | nesting (message : Text)
  /-- A callback gave up for a reason of its own. -/
  | reported (kind message : Text)
deriving DecidableEq

namespace Fault

def message : Fault → Text
  | endOfText => "end of text"
  | numeralTooLong => "numeral too long"
  | notNumeral => "not a numeral"
  | zeroDivisor => "division by zero"
  | floatZeroDivisor => "float division by zero"
  | integerTooLarge => "int too large to convert to float"
  | quotientTooLarge => "integer division result too large for a float"
  | infiniteInteger => "cannot convert float infinity to integer"
  | countTooLarge => "cannot fit 'int' into an index-sized integer"
  | textTooLong => "repeated string is too long"
  | outOfMemory => "out of memory"
  | unknown name => "unknown " ++ name
  | wrongOperand => "wrong operand"
  | notExpression => "not an expression"
  | emptySequence => "empty sequence"
  | tooDeep => "nested too deeply"
  | nesting message => message
  | reported _ message => message

end Fault
end Descent
