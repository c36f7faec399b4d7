import HealthTree.Health

/-!
# Services as maps

Services are a list of pairs in the order of their names, and the only way they grow is
`Services.insert`. Two facts say that the list is a map. Inserting keeps the names strictly
ascending (`insert_ascending`), and inserting a name that has no entry puts the pair in and leaves
every other pair as it was (`insert_perm`). So the order in which names of their own are inserted
does not matter: services with the same pairs in ascending order are equal (`eq_of_perm`).
-/

namespace HealthTree

/-- The names stand in strictly ascending order, so each of them stands once. -/
def Services.Ascending (services : Services) : Prop :=
  services.names.Pairwise (· < ·)

namespace Services

/-- A name stands among the services if it was inserted or stood there before. -/
theorem mem_names_insert {k name : String} {health : Health} {services : Services} :
    k ∈ (services.insert name health).names ↔ k = name ∨ k ∈ services.names := by
  induction services with
  | nil => simp [insert, names]
  | cons entry rest ih =>
    obtain ⟨first, h⟩ := entry
    simp only [names] at ih
    simp only [insert, names]
    split
    · simp
    · split
      · next same => subst same; simp
      · simp only [List.map_cons, List.mem_cons, ih]
        exact or_left_comm

/-- Looking a name up and finding it among the names are one thing. -/
theorem has_iff {name : String} {services : Services} :
    services.has name = true ↔ name ∈ services.names := by
  simp only [has, names, List.any_eq_true, beq_iff_eq, List.mem_map]

/-- Inserting keeps the names in order. -/
theorem insert_ascending {name : String} {health : Health} {services : Services}
    (ascending : services.Ascending) : (services.insert name health).Ascending := by
  induction services with
  | nil => exact List.pairwise_singleton _ _
  | cons entry rest ih =>
    obtain ⟨first, h⟩ := entry
    obtain ⟨below, tail⟩ := List.pairwise_cons.mp ascending
    simp only [insert]
    split
    · next before =>
      refine List.pairwise_cons.mpr ⟨?_, ascending⟩
      intro k mem
      rcases List.mem_cons.mp mem with rfl | mem
      · exact before
      · exact String.lt_trans before (below k mem)
    · next notBefore =>
      split
      · next same => subst same; exact ascending
      · next different =>
        refine List.pairwise_cons.mpr ⟨?_, ih tail⟩
        intro k mem
        rcases mem_names_insert.mp mem with rfl | mem
        · -- what is neither before `first` nor equal to it is after it
          grind
        · exact below k mem

/-- A name without an entry adds its pair and touches no other. -/
theorem insert_perm {name : String} {health : Health} {services : Services}
    (fresh : name ∉ services.names) :
    (services.insert name health).Perm ((name, health) :: services) := by
  induction services with
  | nil => exact .refl _
  | cons entry rest ih =>
    obtain ⟨first, h⟩ := entry
    simp only [names, List.map_cons, List.mem_cons, not_or] at fresh
    simp only [insert]
    split
    · exact .refl _
    · rw [if_neg fresh.1]
      exact ((ih fresh.2).cons _).trans (.swap _ _ _)

/-- Two lists of services with the same pairs, both in order, are one list. -/
theorem eq_of_perm {first second : Services} (perm : first.Perm second)
    (ascending : first.Ascending) (ascending' : second.Ascending) : first = second := by
  have antisymm : ∀ a b : String × Health, a ∈ first → b ∈ second → a.1 < b.1 → b.1 < a.1 → a = b :=
    fun _ _ _ _ ab ba => absurd ba (String.lt_asymm ab)
  exact perm.eq_of_pairwise antisymm (List.pairwise_map.mp ascending)
    (List.pairwise_map.mp ascending')

end Services

end HealthTree
