/-
This module holds lists of entries under distinct text keys, in the order of their first
insertion. Setting a key that is already there keeps its place and replaces its value.
-/

namespace MacroAssembler.Association

variable {α : Type}

def get? (entries : List (String × α)) (key : String) : Option α :=
  (entries.find? fun entry => decide (entry.1 = key)).map (·.2)

def holds (entries : List (String × α)) (key : String) : Bool :=
  entries.any fun entry => decide (entry.1 = key)

def set (entries : List (String × α)) (key : String) (value : α) : List (String × α) :=
  if holds entries key then
    entries.map fun entry => if entry.1 = key then (key, value) else entry
  else entries ++ [(key, value)]

/-- The entries with several keys set, from left to right. -/
def update (entries others : List (String × α)) : List (String × α) :=
  others.foldl (fun entries entry => set entries entry.1 entry.2) entries

def keys (entries : List (String × α)) : List String := entries.map (·.1)

/-! ### Values under keys -/

theorem get?_nil (key : String) : get? ([] : List (String × α)) key = none := rfl

theorem get?_cons (entry : String × α) (rest : List (String × α)) (key : String) :
    get? (entry :: rest) key = if entry.1 = key then some entry.2 else get? rest key := by
  unfold get?
  rw [List.find?_cons]
  by_cases same : entry.1 = key <;> simp [same]

theorem holds_eq_isSome (entries : List (String × α)) (key : String) :
    holds entries key = (get? entries key).isSome := by
  induction entries with
  | nil => rfl
  | cons entry rest inductionHypothesis =>
    rw [get?_cons, holds, List.any_cons, ← holds, inductionHypothesis]
    by_cases same : entry.1 = key <;> simp [same]

theorem get?_append_single (entries : List (String × α)) (key other : String) (value : α)
    (missing : get? entries key = none) :
    get? (entries ++ [(key, value)]) other =
      if key = other then some value else get? entries other := by
  induction entries with
  | nil => rw [List.nil_append, get?_cons]
  | cons entry rest inductionHypothesis =>
    rw [get?_cons] at missing
    split at missing
    · cases missing
    · rename_i different
      rw [List.cons_append, get?_cons, get?_cons, inductionHypothesis missing]
      by_cases same : entry.1 = other
      · simp [same, Ne.symm (same ▸ different)]
      · simp [same]

theorem get?_map_replace (entries : List (String × α)) (key other : String) (value : α) :
    get? (entries.map fun entry => if entry.1 = key then (key, value) else entry) other =
      if key = other ∧ (get? entries key).isSome then some value else get? entries other := by
  induction entries with
  | nil => simp [get?_nil]
  | cons entry rest inductionHypothesis =>
    rw [List.map_cons, get?_cons, get?_cons, get?_cons, inductionHypothesis]
    by_cases here : entry.1 = key
    · by_cases same : key = other <;> simp [here, same]
    · by_cases same : key = other
      · subst same
        simp [here]
      · simp [here, same]

theorem get?_set (entries : List (String × α)) (key other : String) (value : α) :
    get? (set entries key value) other =
      if key = other then some value else get? entries other := by
  unfold set
  rw [holds_eq_isSome]
  split
  · rename_i present
    rw [get?_map_replace]
    simp [present]
  · rename_i missing
    exact get?_append_single entries key other value (by simpa using missing)

end MacroAssembler.Association
