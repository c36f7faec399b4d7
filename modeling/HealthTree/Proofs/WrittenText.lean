import HealthTree.Health.Reader
import HealthTree.Json.Writer
import Mathlib.Tactic.SplitIfs

/-!
# JSON text read back

What the writer makes of a string, `Json.text` reads back, and leaves whatever comes after it
(`text_stringChars`). A character that is written as it is stands for itself because the writer
escapes every one that does not.

A map is read entry by entry by a reader of its own kind (`foldEntries`). `Takes` says what such a
reader makes of entries as they are written, one after the other, whatever text follows: the state
it comes to, or the problem of the first entry it refuses. The text of the whole map then comes to
just that (`foldEntries_mapChars`), so a reader of maps has to be looked at one entry at a time
only.
-/

namespace HealthTree.Json

/-! ## Strings -/

theorem skipBlanks_cons {c : Char} (cs : List Char) (visible : isBlank c = false) :
    skipBlanks (c :: cs) = c :: cs := by
  rw [skipBlanks, List.dropWhile_cons, visible]
  rfl

/-- The two digits of a control character stand for it. -/
theorem unit?_hexDigit {n : Nat} (control : n < 0x20) :
    unit? '0' '0' (hexDigit (n / 16)) (hexDigit n) = some n := by
  have all : ∀ n < 0x20, unit? '0' '0' (hexDigit (n / 16)) (hexDigit n) = some n := by decide
  exact all n control

/-- **A character is read as it was written.** -/
theorem string_escapeChar (c : Char) (cs : List Char) :
    string (escapeChar c ++ cs) = consChar c (string cs) := by
  unfold escapeChar
  split_ifs with quote backslash back feed line carriage tab control
  · subst quote; rfl
  · subst backslash; rfl
  · subst back; rfl
  · subst feed; rfl
  · subst line; rfl
  · subst carriage; rfl
  · subst tab; rfl
  · have low : isLow c.toNat = false := by simp [isLow]; omega
    have high : isHigh c.toNat = false := by simp [isHigh]; omega
    simp only [List.cons_append, List.nil_append]
    rw [string]
    simp only [unit?_hexDigit control, low, high, Char.ofNat_toNat]
    rfl
  · rw [List.singleton_append, string]
    · rw [if_neg control]
    · exact quote
    · exact backslash

/-- **A string is read as it was written**, and what comes after it is left. -/
theorem string_body (s : List Char) (rest : List Char) :
    string (s.flatMap escapeChar ++ '"' :: rest) = .ok (s, rest) := by
  induction s with
  | nil => rw [List.flatMap_nil, List.nil_append, string]
  | cons c s ih => rw [List.flatMap_cons, List.append_assoc, string_escapeChar, ih, consChar]

theorem stringChars_append (s : String) (rest : List Char) :
    stringChars s ++ rest = '"' :: (s.toList.flatMap escapeChar ++ '"' :: rest) := by
  rw [stringChars, List.cons_append, List.cons_append, List.append_assoc, List.singleton_append]

theorem text_stringChars (s : String) (rest : List Char) :
    text (stringChars s ++ rest) = .ok (s, rest) := by
  rw [stringChars_append, text, skipBlanks_cons _ (by decide)]
  simp only [string_body]
  exact congrArg (fun s => Except.ok (s, rest)) String.ofList_toList

/-! ## Maps -/

/-- What is written of a map from some entry on: after another entry a comma comes first. -/
def entriesFrom : Bool → List (String × Data) → List Char
  | false, e :: es => ',' :: mapChars (e :: es)
  | _, es => mapChars es

theorem mapChars_cons (key : String) (d : Data) (es : List (String × Data)) :
    mapChars ((key, d) :: es) = stringChars key ++ ':' :: (chars d ++ entriesFrom false es) := by
  cases es <;> simp [mapChars, entriesFrom]

/-- Every entry takes room. -/
theorem length_le_mapChars (es : List (String × Data)) : es.length ≤ (mapChars es).length := by
  induction es with
  | nil => exact Nat.zero_le _
  | cons e es ih =>
    have later : (mapChars es).length ≤ (entriesFrom false es).length := by
      cases es <;> simp [entriesFrom]
    rw [mapChars_cons]
    simp only [List.length_cons, List.length_append]
    omega

variable {σ : Type} {entry : σ → String → List Char → Except Problem (σ × List Char)}

/-- At the closing brace the state is what it has come to. -/
theorem foldEntries_close (fuel : Nat) (first : Bool) (s : σ) (rest : List Char) :
    foldEntries entry (fuel + 1) first s (entriesFrom first [] ++ rest) = .ok (s, rest) := by
  cases first <;> rfl

/-- **One entry**: the key is read, and the reader of entries gets what comes after it. -/
theorem foldEntries_entry (fuel : Nat) (first : Bool) (s : σ) (key : String) (d : Data)
    (es : List (String × Data)) (rest : List Char) :
    foldEntries entry (fuel + 1) first s (entriesFrom first ((key, d) :: es) ++ rest) =
      (entry s key (':' :: (chars d ++ (entriesFrom false es ++ rest))) >>=
        fun next => foldEntries entry fuel false next.1 next.2) := by
  let after := ':' :: (chars d ++ (entriesFrom false es ++ rest))
  let quoted := key.toList.flatMap escapeChar ++ '"' :: after
  have written : mapChars ((key, d) :: es) ++ rest = '"' :: quoted := by
    rw [mapChars_cons, List.append_assoc, List.cons_append, List.append_assoc, stringChars_append]
  have opened : foldEntries entry (fuel + 1) first s (entriesFrom first ((key, d) :: es) ++ rest) =
      (do let read ← string quoted
          let next ← entry s (String.ofList read.1) read.2
          foldEntries entry fuel false next.1 next.2) := by
    cases first with
    | true =>
      show foldEntries entry (fuel + 1) true s (mapChars ((key, d) :: es) ++ rest) = _
      rw [written]
      rfl
    | false =>
      show foldEntries entry (fuel + 1) false s (',' :: (mapChars ((key, d) :: es) ++ rest)) = _
      rw [written]
      rfl
  rw [opened, string_body]
  show (entry s (String.ofList key.toList) after >>= _) = _
  rw [String.ofList_toList]

/-- **What a reader of entries makes of them**, one after the other as they are written and whatever
text follows: the state it comes to, or what is wrong with the first one it refuses. -/
inductive Takes (entry : σ → String → List Char → Except Problem (σ × List Char)) :
    σ → List (String × Data) → Except Problem σ → Prop
  | done (s : σ) : Takes entry s [] (.ok s)
  | next {s s' : σ} {key : String} {d : Data} {es : List (String × Data)} {r : Except Problem σ}
      (taken : ∀ rest, entry s key (':' :: (chars d ++ rest)) = .ok (s', rest))
      (later : Takes entry s' es r) : Takes entry s ((key, d) :: es) r
  | refused {s : σ} {key : String} {d : Data} {es : List (String × Data)} {p : Problem}
      (wrong : ∀ rest, entry s key (':' :: (chars d ++ rest)) = .error p) :
      Takes entry s ((key, d) :: es) (.error p)

/-- What is taken one after the other is taken together. -/
theorem Takes.append {s s' : σ} {es later : List (String × Data)} {r : Except Problem σ}
    (first : Takes entry s es (.ok s')) (second : Takes entry s' later r) :
    Takes entry s (es ++ later) r := by
  generalize came : Except.ok s' = r' at first
  induction first with
  | done s =>
    cases came
    exact second
  | next taken _ ih => exact .next taken (ih came)
  | refused wrong => cases came

private theorem foldEntries_takes {s : σ} {es : List (String × Data)} {r : Except Problem σ}
    (takes : Takes entry s es r) (fuel : Nat) (enough : es.length < fuel) (first : Bool)
    (rest : List Char) :
    foldEntries entry fuel first s (entriesFrom first es ++ rest) = r.map fun s => (s, rest) := by
  induction takes generalizing fuel first with
  | done s =>
    obtain ⟨fuel, rfl⟩ := Nat.exists_eq_add_one_of_ne_zero (Nat.ne_of_gt enough)
    exact foldEntries_close fuel first s rest
  | next taken _ ih =>
    obtain ⟨fuel, rfl⟩ := Nat.exists_eq_add_one_of_ne_zero (Nat.ne_of_gt (Nat.zero_lt_of_lt enough))
    rw [foldEntries_entry, taken]
    exact ih fuel (Nat.lt_of_succ_lt_succ enough) false
  | refused wrong =>
    obtain ⟨fuel, rfl⟩ := Nat.exists_eq_add_one_of_ne_zero (Nat.ne_of_gt (Nat.zero_lt_of_lt enough))
    rw [foldEntries_entry, wrong]
    rfl

/-- **The text of a map comes to what its entries come to**, and what follows it is left. -/
theorem foldEntries_mapChars {s : σ} {es : List (String × Data)} {r : Except Problem σ}
    (takes : Takes entry s es r) (rest : List Char) :
    foldEntries entry ((mapChars es ++ rest).length + 1) true s (mapChars es ++ rest) =
      r.map fun s => (s, rest) := by
  refine foldEntries_takes takes _ ?_ true rest
  have := length_le_mapChars es
  rw [List.length_append]
  omega

end HealthTree.Json
