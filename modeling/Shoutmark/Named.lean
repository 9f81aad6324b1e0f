/-! Values by name, in the order in which the names were first given one. -/

namespace Shoutmark.Named

variable {α : Type}

/-- Gives a name a value. A name that has one keeps its place. -/
def put (name : String) (value : α) : List (String × α) → List (String × α)
  | [] => [(name, value)]
  | e :: rest => if e.1 = name then (name, value) :: rest else e :: put name value rest

theorem lookup_put_self (name : String) (value : α) (es : List (String × α)) :
    (put name value es).lookup name = some value := by
  induction es with
  | nil => simp [put]
  | cons e rest ih =>
    obtain ⟨key, old⟩ := e
    rw [put]
    split
    · simp
    · rename_i h
      rw [List.lookup_cons, beq_false_of_ne (Ne.symm h)]
      exact ih

theorem lookup_put_of_ne {name other : String} (h : other ≠ name) (value : α)
    (es : List (String × α)) : (put name value es).lookup other = es.lookup other := by
  induction es with
  | nil => simp [put, List.lookup_cons, beq_false_of_ne h]
  | cons e rest ih =>
    obtain ⟨key, old⟩ := e
    rw [put]
    split
    · rename_i he
      cases he
      rw [List.lookup_cons, List.lookup_cons, beq_false_of_ne h]
    · rw [List.lookup_cons, List.lookup_cons, ih]

theorem put_of_not_mem {name : String} (value : α) {es : List (String × α)}
    (h : name ∉ es.map Prod.fst) : put name value es = es ++ [(name, value)] := by
  induction es with
  | nil => rfl
  | cons e rest ih =>
    rw [List.map_cons, List.mem_cons, not_or] at h
    rw [put, if_neg (Ne.symm h.1), ih h.2, List.cons_append]

theorem map_fst_put (name : String) (value : α) (es : List (String × α)) :
    (put name value es).map Prod.fst =
      if name ∈ es.map Prod.fst then es.map Prod.fst else es.map Prod.fst ++ [name] := by
  induction es with
  | nil => simp [put]
  | cons e rest ih =>
    rw [put]
    split
    · rename_i he
      simp [he]
    · rename_i he
      simp only [List.map_cons, ih, List.mem_cons]
      grind

variable {β : Type}

/-- Other names and values are given and looked up the same, as long as no other name takes the
place of the one at hand. -/
theorem map_put (f : String → String) (g : α → β) {name : String} (value : α)
    {es : List (String × α)} (h : ∀ key ∈ es.map Prod.fst, f key = f name → key = name) :
    (put name value es).map (Prod.map f g) = put (f name) (g value) (es.map (Prod.map f g)) := by
  induction es with
  | nil => rfl
  | cons e rest ih =>
    obtain ⟨key, old⟩ := e
    have hrest := ih fun key hk => h key (List.mem_cons_of_mem _ hk)
    have he : f key = f name → key = name := h key List.mem_cons_self
    rw [put, List.map_cons, Prod.map, put]
    by_cases hk : key = name
    · rw [if_pos hk, if_pos (congrArg f hk)]
      rfl
    · rw [if_neg hk, if_neg fun hf => hk (he hf), List.map_cons, hrest]
      rfl

theorem lookup_map (f : String → String) (g : α → β) {name : String} {es : List (String × α)}
    (h : ∀ key ∈ es.map Prod.fst, f key = f name → key = name) :
    (es.map (Prod.map f g)).lookup (f name) = (es.lookup name).map g := by
  induction es with
  | nil => rfl
  | cons e rest ih =>
    obtain ⟨key, value⟩ := e
    have hrest := ih fun key hk => h key (List.mem_cons_of_mem _ hk)
    have he : f key = f name → key = name := h key List.mem_cons_self
    rw [List.map_cons, Prod.map, List.lookup_cons, List.lookup_cons]
    by_cases hk : name = key
    · subst hk
      simp
    · rw [beq_false_of_ne hk, beq_false_of_ne fun hf => hk (he hf.symm).symm]
      exact hrest

theorem foldl_put {es : List (String × α)} (h : es.Pairwise (·.1 ≠ ·.1)) :
    ∀ given : List (String × α), (∀ e ∈ es, e.1 ∉ given.map Prod.fst) →
      es.foldl (fun values e => put e.1 e.2 values) given = given ++ es := by
  induction h with
  | nil => exact fun given _ => (List.append_nil given).symm
  | @cons e es hdiffer _ ih =>
    intro given hnew
    obtain ⟨he, hes⟩ := List.forall_mem_cons.mp hnew
    have hput : put e.1 e.2 given = given ++ [e] := put_of_not_mem e.2 he
    rw [List.foldl_cons, hput, ih, List.append_assoc, List.singleton_append]
    intro e' he'
    rw [List.map_append, List.mem_append, not_or]
    refine ⟨hes e' he', fun hmem => hdiffer e' he' ?_⟩
    exact (List.mem_singleton.mp hmem).symm

theorem lookup_of_mem {es : List (String × α)} (h : es.Pairwise (·.1 ≠ ·.1)) {e : String × α}
    (he : e ∈ es) : es.lookup e.1 = some e.2 := by
  induction h with
  | nil => cases he
  | @cons first es hdiffer _ ih =>
    rcases List.mem_cons.mp he with hfirst | hlater
    · rw [hfirst]
      exact List.lookup_cons_self
    · obtain ⟨key, value⟩ := first
      rw [List.lookup_cons, beq_false_of_ne (Ne.symm (hdiffer e hlater))]
      exact ih hlater

end Shoutmark.Named
