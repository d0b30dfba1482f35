/-! Lists of values under keys, as `List.lookup` reads them. A value that is put under a
key takes the place of the one that was there, and the others keep theirs. -/

namespace RowTypes.Keyed

def put {κ α : Type} [DecidableEq κ] (key : κ) (value : α) : List (κ × α) → List (κ × α)
  | [] => [(key, value)]
  | (k, v) :: rest => if k = key then (key, value) :: rest else (k, v) :: put key value rest

theorem lookup_put {κ α : Type} [DecidableEq κ] (key key' : κ) (value : α)
    (entries : List (κ × α)) :
    (put key value entries).lookup key' =
      if key' = key then some value else entries.lookup key' := by
  induction entries with
  | nil =>
    by_cases h : key' = key
    · simp [put, h]
    · simp [put, h, List.lookup_cons, beq_eq_false_iff_ne.mpr h]
  | cons entry rest ih =>
    obtain ⟨k, v⟩ := entry
    by_cases hk : k = key
    · subst hk
      by_cases h : key' = k
      · simp [put, h]
      · simp [put, h, List.lookup_cons, beq_eq_false_iff_ne.mpr h]
    · by_cases h : key' = key
      · subst h
        have : (key' == k) = false := beq_eq_false_iff_ne.mpr (Ne.symm hk)
        simp [put, hk, List.lookup_cons, this, ih]
      · simp only [put, hk, if_false, List.lookup_cons, ih, h]

end RowTypes.Keyed
