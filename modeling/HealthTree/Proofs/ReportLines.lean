import HealthTree.Health.Codec
import HealthTree.Proofs.Services
import HealthTree.Proofs.WrittenText
import Mathlib.Data.List.TakeWhile

/-!
# A report read from its line

The line of a report is read as the report it was written for, with every status, set or unset,
every message and every name, as long as the reader has the levels of nesting it takes: two for each
level of services, and one for the node at the top (`read_toData`). With the levels there are, these
are reports of up to 63 levels of services, and a deeper one is refused (`parse_line`). As more
levels would do for any other report, no two reports have one line.

A part that is left out when it is written is one that is not given when it is read, which is what
makes unset and empty parts come back. Services come back in the order of their names, so it matters
that they were in it (`Health.Ordered`).
-/

namespace HealthTree

/-- A name that is after all others is put at the end. -/
theorem Services.insert_concat {name : String} {h : Health} {services : Services}
    (last : ∀ k ∈ services.names, k < name) :
    services.insert name h = services ++ [(name, h)] := by
  induction services with
  | nil => rfl
  | cons entry rest ih =>
    obtain ⟨k, g⟩ := entry
    have before : k < name := last k List.mem_cons_self
    have notBefore : ¬ name < k := String.lt_asymm before
    have other : name ≠ k := fun same => String.lt_irrefl k (same ▸ before)
    rw [insert, if_neg notBefore, if_neg other, ih fun k mem => last k (List.mem_cons_of_mem _ mem)]
    rfl

namespace Health

open Json

/-! ## Part by part -/

theorem readStatus_word (s : Status) (rest : List Char) :
    readStatus (stringChars s.word ++ rest) = .ok (some s, rest) := by
  have word := text_stringChars s.word rest
  rw [stringChars_append] at word ⊢
  rw [readStatus, skipBlanks_cons _ (by decide)]
  show (text _ >>= fun read => pure (some (Status.read read.1), read.2)) = _
  rw [word]
  exact congrArg (fun s => Except.ok (some s, rest)) (Status.read_word s)

variable (services : List Char → Except Problem (Services × List Char))

/-- A status that is written is taken, if none was given before; one that is not changes nothing. -/
theorem status_taken (status : Option Status) (m : Option String) (found : Option Services) :
    Takes (readPart services) ⟨none, m, found⟩
      (match status with | some s => [("status", Data.str s.word)] | none => [])
      (.ok ⟨status.map some, m, found⟩) := by
  cases status with
  | none => exact .done _
  | some s =>
    refine .next (fun rest => ?_) (.done _)
    simp only [readPart, if_true, Option.isSome_none, Bool.false_eq_true, if_false, chars]
    show (readStatus (stringChars s.word ++ rest) >>= _) = _
    rw [readStatus_word]
    rfl

/-- The same for a message, which is written unless it is empty. -/
theorem message_taken (s : Option (Option Status)) (message : String) (found : Option Services) :
    Takes (readPart services) ⟨s, none, found⟩
      (if message.isEmpty then [] else [("message", Data.str message)])
      (.ok ⟨s, if message.isEmpty then none else some message, found⟩) := by
  cases message.isEmpty with
  | true => exact .done _
  | false =>
    refine .next (fun rest => ?_) (.done _)
    have other : "message" ≠ "status" := by decide
    simp only [readPart, if_neg other, if_true, Option.isSome_none, Bool.false_eq_true, if_false,
      chars]
    show (text (stringChars message ++ rest) >>= _) = _
    rw [text_stringChars]
    rfl

/-- The services are taken as they are read. -/
theorem readPart_services (s : Option (Option Status)) (m : Option String) (cs : List Char) :
    readPart services ⟨s, m, none⟩ "services" (':' :: cs) =
      (services cs).map fun (found, cs) => (⟨s, m, some found⟩, cs) := by
  have other : "services" ≠ "status" := by decide
  have other' : "services" ≠ "message" := by decide
  simp only [readPart, if_neg other, if_neg other', if_true, Option.isSome_none,
    Bool.false_eq_true, if_false]
  show (services cs >>= _) = _
  cases services cs <;> rfl

/-- What is written of a node makes it, what was left out included. -/
theorem health_of_parts (status : Option Status) (message : String) (cs : Services) :
    Parts.health ⟨status.map some, if message.isEmpty then none else some message,
      if cs.isEmpty then none else some cs⟩ = ⟨status, message, cs⟩ := by
  have said : (if message.isEmpty then none else some message).getD "" = message := by
    split_ifs with empty
    · exact (String.isEmpty_iff.mp empty).symm
    · rfl
  have found : (if cs.isEmpty then none else some cs).getD [] = cs := by
    split_ifs with empty
    · exact (List.isEmpty_iff.mp empty).symm
    · rfl
  rw [Parts.health, said, found]
  cases status <;> rfl

/-! ## Node by node -/

theorem chars_toData (status : Option Status) (message : String) (cs : Services) :
    chars (toData ⟨status, message, cs⟩) = '\x7b' :: mapChars
      ((match status with | some s => [("status", Data.str s.word)] | none => []) ++
        (if message.isEmpty then [] else [("message", Data.str message)]) ++
        (if cs.isEmpty then [] else [("services", Data.map (servicesToData cs))])) := by
  unfold toData
  cases status <;> simp only [chars]

/-- Services that are there are read as a map, which takes a level of nesting. -/
theorem readServices_of_taken {cs : Services} (inhabited : cs ≠ [])
    (taken : ∀ levels, Takes (readService (read levels)) [] (servicesToData cs)
      (if 2 * depthServices cs ≤ levels + 1 then .ok cs else .error .malformed))
    (levels : Nat) (rest : List Char) :
    readServices levels (chars (.map (servicesToData cs)) ++ rest) =
      if 2 * depthServices cs ≤ levels then .ok (cs, rest) else .error .malformed := by
  rw [chars, List.cons_append]
  cases levels with
  | zero =>
    have deep : ¬ 2 * depthServices cs ≤ 0 := by
      obtain ⟨service, more, rfl⟩ := List.exists_cons_of_ne_nil inhabited
      rw [depthServices]
      omega
    rw [if_neg deep]
    rfl
  | succ levels =>
    show foldEntries (readService (read levels)) _ true [] _ = _
    rw [foldEntries_mapChars (taken levels)]
    split_ifs <;> rfl

/-- A node's part of services is taken if they can be read. -/
theorem services_part_taken {levels : Nat} {cs : Services} (s : Option (Option Status))
    (m : Option String) (reads : cs ≠ [] → ∀ rest,
      readServices levels (chars (.map (servicesToData cs)) ++ rest) =
        if 2 * depthServices cs ≤ levels then .ok (cs, rest) else .error .malformed) :
    Takes (readPart (readServices levels)) ⟨s, m, none⟩
      (if cs.isEmpty then [] else [("services", Data.map (servicesToData cs))])
      (if 2 * depthServices cs ≤ levels then
        .ok ⟨s, m, if cs.isEmpty then none else some cs⟩ else .error .malformed) := by
  cases cs with
  | nil =>
    rw [depthServices, if_pos (Nat.zero_le _)]
    exact .done _
  | cons service more =>
    have reads := reads (List.cons_ne_nil _ _)
    simp only [List.isEmpty_cons, Bool.false_eq_true, if_false]
    by_cases fits : 2 * depthServices (service :: more) ≤ levels
    · simp only [if_pos fits] at reads ⊢
      refine .next (fun rest => ?_) (.done _)
      rw [readPart_services, reads]
      rfl
    · simp only [if_neg fits] at reads ⊢
      refine .refused fun rest => ?_
      rw [readPart_services, reads]
      rfl

mutual
/-- **A node is read as it was written if there are two levels of nesting for each level of services
and one for itself**, and what comes after it is left. Otherwise it is refused. -/
theorem read_toData : (h : Health) → h.Ordered → (levels : Nat) → (rest : List Char) →
    read levels (chars h.toData ++ rest) =
      if 2 * h.depth < levels then .ok (h, rest) else .error .malformed
  | ⟨status, message, cs⟩, ordered, levels, rest => by
    rw [Health.depth, chars_toData, List.cons_append]
    cases levels with
    | zero => rfl
    | succ levels =>
      obtain ⟨ascending, below⟩ := ordered
      have reads (inhabited : cs ≠ []) := readServices_of_taken inhabited
        (fun levels => services_taken cs below levels [] ascending) levels
      have taken := ((status_taken (readServices levels) status none none).append
        (message_taken _ _ message none)).append (services_part_taken _ _ reads)
      show (foldEntries (readPart (readServices levels)) _ true {} _ >>= _) = _
      rw [foldEntries_mapChars taken]
      by_cases fits : 2 * depthServices cs ≤ levels
      · rw [if_pos fits, if_pos (Nat.lt_succ_of_le fits), ← health_of_parts]
        rfl
      · rw [if_neg fits, if_neg (fun lt => fits (Nat.le_of_lt_succ lt))]
        rfl
/-- Services are taken one after the other, in the order of their names. -/
theorem services_taken : (cs : Services) → orderedServices cs → (levels : Nat) →
    (found : Services) → Services.Ascending (found ++ cs) →
    Takes (readService (read levels)) found (servicesToData cs)
      (if 2 * depthServices cs ≤ levels + 1 then .ok (found ++ cs) else .error .malformed)
  | [], _, levels, found, _ => by
    rw [depthServices, if_pos (Nat.zero_le _), List.append_nil]
    exact .done found
  | (name, h) :: cs, ordered, levels, found, ascending => by
    obtain ⟨here, below⟩ := ordered
    have last : ∀ k ∈ found.names, k < name := by
      intro k mem
      rw [Services.Ascending, Services.names, List.map_append, List.pairwise_append] at ascending
      exact ascending.2.2 k mem name List.mem_cons_self
    have split : found ++ (name, h) :: cs = found ++ [(name, h)] ++ cs := by simp
    have reads (rest : List Char) : readService (read levels) found name
        (':' :: (chars h.toData ++ rest)) = if 2 * h.depth < levels then
          .ok (found ++ [(name, h)], rest) else .error .malformed := by
      show (read levels (chars h.toData ++ rest) >>= _) = _
      rw [read_toData h here levels rest]
      split_ifs
      · exact congrArg (fun found => Except.ok (found, rest)) (Services.insert_concat last)
      · rfl
    rw [servicesToData]
    by_cases fits : 2 * h.depth < levels
    · simp only [if_pos fits] at reads
      have deepest : 2 * depthServices ((name, h) :: cs) ≤ levels + 1 ↔
          2 * depthServices cs ≤ levels + 1 := by
        rw [depthServices]
        omega
      simp only [deepest, split]
      exact .next reads (services_taken cs below levels _ (split ▸ ascending))
    · simp only [if_neg fits] at reads
      have deep : ¬ 2 * depthServices ((name, h) :: cs) ≤ levels + 1 := by
        rw [depthServices]
        omega
      rw [if_neg deep]
      exact .refused reads
end

/-! ## Whole lines -/

/-- **A line is read as the report it was written for**, with or without blanks after it, if there
are at most 63 levels of services; a deeper report is refused. -/
theorem parse_line {h : Health} (ordered : h.Ordered) (blanks : String)
    (blank : ∀ c ∈ blanks.toList, isBlank c = true) :
    parse (h.line ++ blanks) = if h.depth ≤ 63 then .ok h else .error .malformed := by
  have nothing : skipBlanks blanks.toList = [] := List.dropWhile_eq_nil_iff.mpr blank
  have bound : 2 * h.depth < maxLevels ↔ h.depth ≤ 63 := by
    rw [maxLevels]
    omega
  have text : (h.line ++ blanks).toList = chars h.toData ++ blanks.toList := by
    rw [String.toList_append, line, write, String.toList_ofList]
  rw [parse, text, read_toData h ordered]
  simp only [bound]
  split_ifs
  · show (if (skipBlanks blanks.toList).isEmpty then _ else _) = _
    rw [nothing]
    rfl
  · rfl

/-- No two reports have one line. -/
theorem line_injective {h other : Health} (ordered : h.Ordered) (ordered' : other.Ordered)
    (same : h.line = other.line) : h = other := by
  let levels := 2 * h.depth + 2 * other.depth + 1
  have written : chars h.toData = chars other.toData := by
    have := congrArg String.toList same
    rwa [line, line, write, write, String.toList_ofList, String.toList_ofList] at this
  have read := read_toData h ordered levels []
  have read' := read_toData other ordered' levels []
  rw [if_pos (by simp only [levels]; omega)] at read read'
  rw [written, read'] at read
  exact (congrArg Prod.fst (Except.ok.inj read)).symm

/-- **Report lines decode to what was reported.** For every report whose services stand in the order
of their names, as maps have them, with whatever statuses, messages and names: if it has at most 63
levels of services, its line is read as this report, also with the line break it is printed with; if
it has more, its line is refused; and no other report has its line. -/
theorem line_decodes {h : Health} (ordered : h.Ordered) :
    (h.depth ≤ 63 → parse h.line = .ok h ∧ parse (h.line ++ "\n") = .ok h) ∧
    (63 < h.depth → parse h.line = .error .malformed) ∧
    ∀ other : Health, other.Ordered → other.line = h.line → other = h := by
  have bare : parse h.line = if h.depth ≤ 63 then .ok h else .error .malformed := by
    have read := parse_line ordered "" (by simp)
    rwa [String.append_empty] at read
  refine ⟨fun shallow => ⟨?_, ?_⟩, fun deep => ?_, fun other ordered' same => ?_⟩
  · rw [bare, if_pos shallow]
  · rw [parse_line ordered _ (by simp [isBlank]), if_pos shallow]
  · rw [bare, if_neg (Nat.not_le_of_lt deep)]
  · exact line_injective ordered' ordered same

/-- A report without a status, with quotes, a backslash, a control character and a line break in its
message, a service without a name, and a name outside the basic plane below one that says its
status. -/
theorem line_decodes_escaped :
    let report : Health := ⟨none, "\"up\"\\\x01\n", [("", .degraded "é"),
      ("b\t", ⟨some .partiallyUnhealthy, "", [("𝄞", .blank)]⟩)]⟩
    report.Ordered ∧ report.depth ≤ 63 ∧ parse report.line = .ok report ∧
      report.line = "\x7b\"message\":\"\\\"up\\\"\\\\\\u0001\\n\"," ++
        "\"services\":\x7b\"\":\x7b\"status\":\"degraded\",\"message\":\"é\"\x7d," ++
        "\"b\\t\":\x7b\"status\":\"partially_unhealthy\",\"services\":" ++
        "\x7b\"𝄞\":\x7b\x7d\x7d\x7d\x7d\x7d" := by
  intro report
  have ordered : report.Ordered := by
    refine ⟨by decide, ⟨.nil, trivial⟩, ⟨by decide, ⟨.nil, trivial⟩, trivial⟩, trivial⟩
  have shallow : report.depth ≤ 63 := by decide +kernel
  exact ⟨ordered, shallow, ((line_decodes ordered).1 shallow).1, by decide +kernel⟩

end Health

end HealthTree
