namespace SceneScript

/-- Entries by name, names strictly increasing. -/
structure Table (α : Type) where
  entries : List (String × α)
  sorted : entries.Pairwise (fun a b => a.1 < b.1)

namespace Table
variable {α β : Type}

def find? (name : String) : List (String × α) → Option α
  | [] => none
  | (other, value) :: rest => if name = other then some value else find? name rest

/-- Puts an entry at its place, over an entry of the same name. -/
def place (name : String) (value : α) : List (String × α) → List (String × α)
  | [] => [(name, value)]
  | (other, old) :: rest =>
    if name = other then (name, value) :: rest
    else if name < other then (name, value) :: (other, old) :: rest
    else (other, old) :: place name value rest

theorem mem_place {name : String} {value : α} {entries : List (String × α)} {e : String × α}
    (h : e ∈ place name value entries) : e = (name, value) ∨ e ∈ entries := by
  induction entries with
  | nil => simpa [place] using h
  | cons head rest ih =>
    rw [place] at h
    split at h
    · rcases List.mem_cons.1 h with h | h
      · exact .inl h
      · exact .inr (List.mem_cons_of_mem _ h)
    · split at h
      · exact List.mem_cons.1 h
      · rcases List.mem_cons.1 h with h | h
        · exact .inr (by simp [h])
        · rcases ih h with h | h
          · exact .inl h
          · exact .inr (List.mem_cons_of_mem _ h)

theorem lt_of_not_lt {a b : String} (hne : a ≠ b) (h : ¬ a < b) : b < a :=
  Decidable.byContradiction fun h' =>
    hne (String.le_antisymm (String.not_lt.1 h') (String.not_lt.1 h))

theorem pairwise_place (name : String) (value : α) {entries : List (String × α)}
    (h : entries.Pairwise (fun a b => a.1 < b.1)) :
    (place name value entries).Pairwise (fun a b => a.1 < b.1) := by
  induction entries with
  | nil => simp [place]
  | cons head rest ih =>
    obtain ⟨hlt, hrest⟩ := List.pairwise_cons.1 h
    rw [place]
    split
    next heq => exact List.pairwise_cons.2 ⟨fun e he => heq ▸ hlt e he, hrest⟩
    next hne =>
      split
      next hless =>
        refine List.pairwise_cons.2 ⟨fun e he => ?_, h⟩
        rcases List.mem_cons.1 he with rfl | he
        · exact hless
        · exact String.lt_trans hless (hlt e he)
      next hge =>
        refine List.pairwise_cons.2 ⟨fun e he => ?_, ih hrest⟩
        rcases mem_place he with rfl | he
        · exact lt_of_not_lt hne hge
        · exact hlt e he

theorem find?_place (name other : String) (value : α) (entries : List (String × α)) :
    find? other (place name value entries) =
      if other = name then some value else find? other entries := by
  induction entries with
  | nil => simp [place, find?]
  | cons head rest ih =>
    rw [place]
    split
    next => by_cases h : other = name <;> simp_all [find?]
    next hne =>
      split
      next => by_cases h : other = name <;> simp_all [find?]
      next hge =>
        by_cases h : other = head.1
        · simp [find?, h, Ne.symm hne]
        · simp [find?, h, ih]

def empty : Table α := ⟨[], .nil⟩

instance : EmptyCollection (Table α) := ⟨empty⟩
instance : Inhabited (Table α) := ⟨empty⟩

def get? (t : Table α) (name : String) : Option α := find? name t.entries

def contains (t : Table α) (name : String) : Bool := (t.get? name).isSome

def insert (t : Table α) (name : String) (value : α) : Table α :=
  ⟨place name value t.entries, pairwise_place name value t.sorted⟩

/-- Later entries of a list win over earlier ones of the same name. -/
def ofList (entries : List (String × α)) : Table α :=
  entries.foldl (fun t e => t.insert e.1 e.2) empty

def toList (t : Table α) : List (String × α) := t.entries

def keys (t : Table α) : List String := t.entries.map (·.1)

def size (t : Table α) : Nat := t.entries.length

def isEmpty (t : Table α) : Bool := t.entries.isEmpty

def filterMap (f : String → α → Option β) (t : Table α) : Table β where
  entries := t.entries.filterMap fun e => (f e.1 e.2).map (e.1, ·)
  sorted := by
    refine List.Pairwise.filterMap _ ?_ t.sorted
    intro a b hab c hc d hd
    obtain ⟨_, _, rfl⟩ := Option.map_eq_some_iff.1 hc
    obtain ⟨_, _, rfl⟩ := Option.map_eq_some_iff.1 hd
    exact hab

def map (f : α → β) (t : Table α) : Table β := t.filterMap fun _ value => some (f value)

@[simp] theorem get?_empty (name : String) : (empty : Table α).get? name = none := rfl

theorem get?_insert (t : Table α) (name other : String) (value : α) :
    (t.insert name value).get? other = if other = name then some value else t.get? other :=
  find?_place name other value t.entries

@[simp] theorem get?_insert_self (t : Table α) (name : String) (value : α) :
    (t.insert name value).get? name = some value := by simp [get?_insert]

theorem mem_of_get?_ofList {entries : List (String × α)} {name : String} {value : α}
    (h : (ofList entries).get? name = some value) : (name, value) ∈ entries := by
  have hfold : ∀ (t : Table α), (entries.foldl (fun t e => t.insert e.1 e.2) t).get? name =
      some value → (name, value) ∈ entries ∨ t.get? name = some value := by
    clear h
    induction entries with
    | nil => exact fun _ => .inr
    | cons first more ih =>
      intro t ht
      rcases ih (t.insert first.1 first.2) ht with hmem | hget
      · exact .inl (List.mem_cons_of_mem _ hmem)
      · rw [get?_insert] at hget
        split at hget
        next heq => exact .inl (by simp [heq, ← Option.some.inj hget])
        next => exact .inr hget
  rcases hfold .empty h with hmem | hget
  · exact hmem
  · cases hget

/-- An entry that no other entry of its name contradicts is the value of its name. -/
theorem get?_ofList_of_mem {entries : List (String × α)} {name : String} {value : α}
    (hmem : (name, value) ∈ entries) (hsame : ∀ other, (name, other) ∈ entries → other = value) :
    (ofList entries).get? name = some value := by
  have hfold : ∀ (t : Table α), t.get? name = some value ∨ (name, value) ∈ entries →
      (entries.foldl (fun t e => t.insert e.1 e.2) t).get? name = some value := by
    clear hmem
    induction entries with
    | nil => exact fun t ht => ht.resolve_right List.not_mem_nil
    | cons first more ih =>
      intro t ht
      apply ih (fun other h => hsame other (List.mem_cons_of_mem _ h))
      rw [get?_insert]
      by_cases heq : name = first.1
      · have hvalue : first.2 = value := hsame first.2 (heq ▸ List.mem_cons_self ..)
        exact .inl (by rw [if_pos heq, hvalue])
      · rw [if_neg heq]
        refine ht.imp_right fun h => (List.mem_cons.1 h).resolve_left fun h => heq ?_
        rw [← h]
  exact hfold .empty (.inr hmem)

theorem mem_of_find?_eq_some {name : String} {value : α} {entries : List (String × α)}
    (h : find? name entries = some value) : (name, value) ∈ entries := by
  induction entries with
  | nil => simp [find?] at h
  | cons head rest ih =>
    rw [find?] at h
    split at h
    next heq => simp [heq, ← Option.some.inj h]
    next => exact List.mem_cons_of_mem _ (ih h)

theorem mem_keys_of_get? {t : Table α} {name : String} {value : α}
    (h : t.get? name = some value) : name ∈ t.keys :=
  List.mem_map.2 ⟨(name, value), mem_of_find?_eq_some h, rfl⟩

theorem find?_eq_none_of_lt {name : String} {entries : List (String × α)}
    (h : ∀ e ∈ entries, name < e.1) : find? name entries = none := by
  rw [Option.eq_none_iff_forall_ne_some]
  intro value hv
  exact String.lt_irrefl _ (h _ (mem_of_find?_eq_some hv))

theorem find?_eq_some_of_mem {name : String} {value : α} {entries : List (String × α)}
    (hs : entries.Pairwise (fun a b => a.1 < b.1)) (h : (name, value) ∈ entries) :
    find? name entries = some value := by
  induction entries with
  | nil => simp at h
  | cons head rest ih =>
    obtain ⟨hlt, hrest⟩ := List.pairwise_cons.1 hs
    rcases List.mem_cons.1 h with rfl | h
    · simp [find?]
    · have hne : name ≠ head.1 := fun heq => String.lt_irrefl _ (heq ▸ hlt _ h)
      simp [find?, hne, ih hrest h]

theorem get?_eq_some_iff_mem (t : Table α) (name : String) (value : α) :
    t.get? name = some value ↔ (name, value) ∈ t.toList :=
  ⟨mem_of_find?_eq_some, find?_eq_some_of_mem t.sorted⟩

theorem eq_of_find?_eq {s t : List (String × α)}
    (hs : s.Pairwise (fun a b => a.1 < b.1)) (ht : t.Pairwise (fun a b => a.1 < b.1))
    (h : ∀ name, find? name s = find? name t) : s = t := by
  induction s generalizing t with
  | nil =>
    cases t with
    | nil => rfl
    | cons head rest => simpa [find?] using h head.1
  | cons a s ih =>
    cases t with
    | nil => simpa [find?] using h a.1
    | cons b t =>
      obtain ⟨hs₁, hs₂⟩ := List.pairwise_cons.1 hs
      obtain ⟨ht₁, ht₂⟩ := List.pairwise_cons.1 ht
      have hab : a.1 = b.1 := by
        rcases Decidable.em (a.1 = b.1) with heq | hne
        · exact heq
        have ha : (a.1, a.2) ∈ t := by
          have := mem_of_find?_eq_some (by simpa [find?, hne] using (h a.1).symm)
          exact this
        have hb : (b.1, b.2) ∈ s := by
          have := mem_of_find?_eq_some (by simpa [find?, Ne.symm hne] using h b.1)
          exact this
        exact (String.lt_asymm (hs₁ _ hb) (ht₁ _ ha)).elim
      have hval : a.2 = b.2 := by simpa [find?, hab] using h a.1
      have htail : s = t := by
        refine ih hs₂ ht₂ fun name => ?_
        rcases Decidable.em (name = a.1) with rfl | hne
        · rw [find?_eq_none_of_lt hs₁, find?_eq_none_of_lt (fun e he => hab ▸ ht₁ e he)]
        · simpa [find?, hne, hab ▸ hne] using h name
      rw [Prod.ext hab hval, htail]

theorem ext_get? {s t : Table α} (h : ∀ name, s.get? name = t.get? name) : s = t := by
  have : s.entries = t.entries := eq_of_find?_eq s.sorted t.sorted h
  cases s; cases t; simp_all

theorem find?_filterMap (f : String → α → Option β) {entries : List (String × α)}
    (hs : entries.Pairwise (fun a b => a.1 < b.1)) (name : String) :
    find? name (entries.filterMap fun e => (f e.1 e.2).map (e.1, ·)) =
      (find? name entries).bind (f name) := by
  induction entries with
  | nil => rfl
  | cons head rest ih =>
    obtain ⟨hlt, hrest⟩ := List.pairwise_cons.1 hs
    rw [List.filterMap_cons]
    rcases Decidable.em (name = head.1) with rfl | hne
    · cases hf : f head.1 head.2 with
      | none =>
        simp only [Option.map_none, find?, if_true, Option.bind_some, hf]
        rw [ih hrest, find?_eq_none_of_lt hlt]
        rfl
      | some b => simp [find?, hf]
    · cases hf : f head.1 head.2 with
      | none => simp [find?, hne, ih hrest]
      | some b => simp [find?, hne, ih hrest]

theorem get?_filterMap (f : String → α → Option β) (t : Table α) (name : String) :
    (t.filterMap f).get? name = (t.get? name).bind (f name) :=
  find?_filterMap f t.sorted name

theorem get?_map (f : α → β) (t : Table α) (name : String) :
    (t.map f).get? name = (t.get? name).map f := by
  rw [map, get?_filterMap]
  cases t.get? name <;> rfl

end Table
end SceneScript
