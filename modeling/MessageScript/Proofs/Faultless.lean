import MessageScript.Proofs.Calendar.ScanDuration
import MessageScript.Proofs.Size.Scan

/-!
# Readers without faults

A machine that scans a text as bytes, with a place in it and numbers in words of a fixed size,
checks every step: a slice must lie in the text and cut no character, the place must not go past the
end, a sum, product, opposite or power must fit its word, and a divisor must not be zero
(`Text.Fault`).  The machines for times, dates, instants, durations and byte sizes pass all of these
checks, whatever the text; they come to what the readers give, or refuse where these give nothing.
-/

namespace MessageScript

open Calendar Text

/-- **No text makes a reader fault**, with whatever clock: each machine comes to what its reader
gives.  The rounds of the unit form of a duration come to an end, since each reads a byte at least,
whatever it starts from. -/
theorem readers_faultless :
    (∀ text : List Char, runTime text = .ofOption (TimeOfDay.parse? text)) ∧
    (∀ text : List Char, runDate text = .ofOption (Date.parse? text)) ∧
    (∀ (clock : LocalClock) (text : List Char),
      runDateTime clock text = .ofOption (DateTime.parseBy? clock text)) ∧
    (∀ text : List Char, runDuration text = .ofOption (Duration.parse? text)) ∧
    (∀ text : String, ByteSize.runSize text.toList = .ofOption (ByteSize.parse? text)) ∧
    ∀ (text : List Char) (seen : List Bool) (total : Int), Advances 1 (scanRound text seen total) :=
  ⟨runTime_eq, runDate_eq, runDateTime_eq, runDuration_eq, ByteSize.runSize_eq,
    advances_scanRound⟩

end MessageScript
