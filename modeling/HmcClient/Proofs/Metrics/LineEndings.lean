import HmcClient.Metrics.Sample
import HmcClient.Proofs.Text.Blank
import Mathlib.Data.List.Forall2

/-!
# Line endings of metrics texts

A metrics text may come with a carriage return before each line feed. Such a text is split at the
same places, and the carriage returns that were added are the last characters of their lines. There
they are dropped, together with those that were there before, so the lines are the same, and with
them everything that is made of them: the samples, and what is said about a line that is no
timestamp, its number and the line itself.

Splitting is followed from the front of the text, where it is not yet known whether a line feed will
end the line. What is carried along is therefore that each line of the one text is that of the
other, as it is or with one carriage return at its end (`SameLine`).
-/

namespace HmcClient.Sample

/-- The text with a carriage return before each line feed. -/
def withReturns (text : List Char) : List Char :=
  text.flatMap fun c => if c = '\n' then ['\r', '\n'] else [c]

/-- Whether a line is the same as another, or the same with a carriage return at its end. -/
def SameLine (line returned : List Char) : Prop := returned = line ∨ returned = line ++ ['\r']

theorem SameLine.cons {line returned : List Char} (h : SameLine line returned) (c : Char) :
    SameLine (c :: line) (c :: returned) :=
  h.imp (congrArg (c :: ·)) (congrArg (c :: ·))

/-- Any number of carriage returns may end a line. -/
theorem SameLine.trimmed {line returned : List Char} (h : SameLine line returned) :
    Blank.dropEndWhile (· == '\r') returned = Blank.dropEndWhile (· == '\r') line := by
  rcases h with rfl | rfl
  · rfl
  · rw [Blank.dropEndWhile, List.reverse_append]
    rfl

theorem splitLines_feed (rest : List Char) : splitLines ('\n' :: rest) = [] :: splitLines rest := by
  rw [splitLines, if_pos rfl]

theorem splitLines_withReturns (text : List Char) :
    List.Forall₂ SameLine (splitLines text) (splitLines (withReturns text)) := by
  induction text with
  | nil => exact .nil
  | cons c text ih =>
      by_cases hc : c = '\n'
      · have hreturns : withReturns (c :: text) = '\r' :: '\n' :: withReturns text := by
          rw [withReturns, List.flatMap_cons, if_pos hc]
          rfl
        have hsplit : splitLines ('\r' :: '\n' :: withReturns text) =
            ['\r'] :: splitLines (withReturns text) := by
          rw [splitLines, if_neg (by decide), splitLines_feed]
        rw [hreturns, hsplit, hc, splitLines_feed]
        exact .cons (.inr rfl) ih
      · have hreturns : withReturns (c :: text) = c :: withReturns text := by
          rw [withReturns, List.flatMap_cons, if_neg hc]
          rfl
        rw [hreturns, splitLines, if_neg hc, splitLines, if_neg hc]
        generalize splitLines text = lines, splitLines (withReturns text) = returned at ih
        cases ih with
        | nil => exact .cons (.inl rfl) .nil
        | cons hline hlines => exact .cons (hline.cons c) hlines

theorem map_trimmed {lines returned : List (List Char)} (h : List.Forall₂ SameLine lines returned) :
    returned.map (Blank.dropEndWhile (· == '\r')) = lines.map (Blank.dropEndWhile (· == '\r')) := by
  induction h with
  | nil => rfl
  | cons hline _ ih => rw [List.map_cons, List.map_cons, hline.trimmed, ih]

theorem lines_withReturns (text : List Char) : lines (withReturns text) = lines text :=
  map_trimmed (splitLines_withReturns text)

/-- A carriage return before each line feed changes nothing: what is read are the same samples, or
the reading fails with the same failure. -/
theorem readText_withReturns (text : List Char) : readText (withReturns text) = readText text := by
  rw [readText, lines_withReturns, readText]

example : readText (withReturns "\"g\"\n\"/o\"\r\nx\r\r\n".toList) =
    .error (.new .unmarshal "line 3: invalid metrics timestamp \"x\"") := by
  rfl

end HmcClient.Sample
