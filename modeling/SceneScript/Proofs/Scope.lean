import SceneScript.Scope

namespace SceneScript.Scope
variable {s : Scope} {name : String} {value : Value}

def bind (s : Scope) (name : String) (confined : Bool) (value : Value) : Scope :=
  if confined then s.confine name value else s.assign name value

/-- Whether a binding is made in the file frame: outside blocks, or to a name that no block
holds. -/
def reachesFile (s : Scope) (name : String) (confined : Bool) : Bool :=
  if confined then s.blocks.isEmpty else s.blocks.all fun frame => (frame.get? name).isNone

def Binds (s : Scope) (value : Value) : Prop :=
  ∃ frame ∈ s.frames, ∃ name b, frame.get? name = some b ∧ b.value = value

/-- Some frame, of those that are shadowed too, holds the value under the name. -/
def BindsAs (s : Scope) (name : String) (value : Value) : Prop :=
  ∃ frame ∈ s.frames, ∃ b, frame.get? name = some b ∧ b.value = value

theorem binds_iff : s.Binds value ↔ ∃ name, s.BindsAs name value := by
  constructor
  · rintro ⟨frame, hframe, name, b, hget, hvalue⟩
    exact ⟨name, frame, hframe, b, hget, hvalue⟩
  · rintro ⟨name, frame, hframe, b, hget, hvalue⟩
    exact ⟨frame, hframe, name, b, hget, hvalue⟩

theorem bindsAs_of_lookup? (h : s.lookup? name = some value) : s.BindsAs name value := by
  obtain ⟨b, hb, rfl⟩ := Option.map_eq_some_iff.1 h
  obtain ⟨frame, hframe, hget⟩ := List.exists_of_findSome?_eq_some hb
  exact ⟨frame, hframe, b, hget, rfl⟩

theorem binds_of_lookup? (h : s.lookup? name = some value) : s.Binds value :=
  binds_iff.2 ⟨name, bindsAs_of_lookup? h⟩

theorem binds_of_exports (h : s.exports.get? name = some value) : s.Binds value := by
  rw [exports, Table.get?_filterMap] at h
  obtain ⟨b, hb, hassigned⟩ := Option.bind_eq_some_iff.1 h
  split at hassigned <;> cases hassigned
  exact ⟨s.file, by simp [frames], name, b, hb, rfl⟩

/-- The depth of the frame that a binding is made in, the innermost frame having depth 0: a confined
one is made there, any other one in the first frame that holds the name, or in the file frame. -/
def depthOf (s : Scope) (name : String) (confined : Bool) : Nat :=
  if confined then 0 else s.blocks.findIdx (·.contains name)

theorem exists_of_assignBlocks? {new : Value} {blocks changed : List Frame}
    (h : assignBlocks? name new blocks = some changed) :
    ∃ old b, blocks[blocks.findIdx (·.contains name)]? = some old ∧ b.value = new ∧
      changed = blocks.set (blocks.findIdx (·.contains name)) (old.insert name b) := by
  induction blocks generalizing changed with
  | nil => cases h
  | cons inner outer ih =>
    rw [assignBlocks?] at h
    cases hget : inner.get? name with
    | some b =>
      have hcontains : inner.contains name = true := Option.isSome_of_eq_some hget
      simp only [hget, Option.some.injEq] at h
      rw [List.findIdx_cons, hcontains]
      exact ⟨inner, b.assign new, rfl, rfl, h.symm⟩
    | none =>
      have hcontains : inner.contains name = false := by rw [Table.contains, hget]; rfl
      simp only [hget, Option.map_eq_some_iff] at h
      obtain ⟨rest, hrest, rfl⟩ := h
      obtain ⟨old, b, hold, hvalue, rfl⟩ := ih hrest
      rw [List.findIdx_cons, hcontains]
      exact ⟨old, b, hold, hvalue, rfl⟩

theorem assignBlocks?_eq_none_iff (new : Value) (blocks : List Frame) :
    assignBlocks? name new blocks = none ↔ blocks.all fun frame => (frame.get? name).isNone := by
  induction blocks with
  | nil => simp [assignBlocks?]
  | cons inner outer ih =>
    rw [assignBlocks?]
    cases h : inner.get? name with
    | none => simp [h, ih]
    | some b => simp [h]

/-- A binding changes one frame, at one name. -/
theorem exists_frames_bind (s : Scope) (name : String) (confined : Bool) (new : Value) :
    ∃ old b, s.frames[s.depthOf name confined]? = some old ∧ b.value = new ∧
      (s.bind name confined new).frames =
        s.frames.set (s.depthOf name confined) (old.insert name b) := by
  -- The frame that is changed is the innermost one, the one that holds the name, or that of the
  -- file.
  rcases s with ⟨file, blocks⟩
  cases confined with
  | true =>
    cases blocks with
    | nil => exact ⟨file, _, rfl, rfl, rfl⟩
    | cons inner outer => exact ⟨inner, _, rfl, rfl, rfl⟩
  | false =>
    simp only [bind, Bool.false_eq_true, if_false, assign, depthOf, frames]
    cases hblocks : assignBlocks? name new blocks with
    | some changed =>
      obtain ⟨old, b, hold, hvalue, rfl⟩ := exists_of_assignBlocks? hblocks
      have hlt := (List.getElem?_eq_some_iff.1 hold).1
      refine ⟨old, b, ?_, hvalue, ?_⟩
      · rw [List.getElem?_append_left hlt, hold]
      · rw [List.set_append_left _ _ hlt]
    | none =>
      have hdepth : blocks.findIdx (·.contains name) = blocks.length := by
        rw [List.findIdx_eq_length]
        intro frame hframe
        have hall := List.all_eq_true.1 ((assignBlocks?_eq_none_iff new blocks).1 hblocks)
        rw [Table.contains, Option.isNone_iff_eq_none.1 (hall frame hframe)]
        rfl
      obtain ⟨b, hvalue, hassign⟩ : ∃ b : Binding, b.value = new ∧
          assignFile file name new = file.insert name b := by
        rw [assignFile]
        cases file.get? name with
        | some b => exact ⟨b.assign new, rfl, rfl⟩
        | none => exact ⟨⟨new, .assigned⟩, rfl, rfl⟩
      refine ⟨file, b, ?_, hvalue, ?_⟩
      · rw [hdepth, List.getElem?_append_right (Nat.le_refl _), Nat.sub_self]
        rfl
      · rw [hdepth, List.set_append_right _ _ (Nat.le_refl _), Nat.sub_self, hassign]
        rfl

/-- What the frame at a depth binds a name to. The innermost frame has depth 0, and the file frame
comes behind all blocks. -/
def binding? (s : Scope) (depth : Nat) (name : String) : Option Binding :=
  s.frames[depth]?.bind (·.get? name)

theorem length_frames (s : Scope) : s.frames.length = s.blocks.length + 1 := by
  rw [frames, List.length_append, List.length_singleton]

/-- The first depths are those of the blocks. -/
theorem binding?_of_lt {depth : Nat} (h : depth < s.blocks.length) :
    s.binding? depth name = s.blocks[depth].get? name := by
  rw [binding?, frames, List.getElem?_append_left h, List.getElem?_eq_getElem h, Option.bind_some]

/-- A lookup goes by the bindings of the name. -/
theorem lookup?_congr {t : Scope} (hlength : s.blocks.length = t.blocks.length)
    (h : ∀ depth, s.binding? depth name = t.binding? depth name) :
    s.lookup? name = t.lookup? name := by
  have hbindings : s.frames.map (·.get? name) = t.frames.map (·.get? name) := by
    apply List.ext_getElem
    · rw [List.length_map, List.length_map, length_frames, length_frames, hlength]
    intro depth hs ht
    rw [List.length_map] at hs ht
    have hdepth := h depth
    rw [binding?, binding?, List.getElem?_eq_getElem hs, List.getElem?_eq_getElem ht] at hdepth
    rwa [List.getElem_map, List.getElem_map]
  rw [lookup?, lookup?, ← Function.id_comp (fun frame : Frame => frame.get? name),
    ← List.findSome?_map, hbindings, List.findSome?_map]

/-- A binding is new at its depth, and all others are as they were. -/
theorem exists_binding?_bind (s : Scope) (name : String) (confined : Bool) (new : Value) :
    ∃ b : Binding, b.value = new ∧ ∀ depth other,
      (s.bind name confined new).binding? depth other =
        if depth = s.depthOf name confined ∧ other = name then some b
        else s.binding? depth other := by
  obtain ⟨old, b, hold, hvalue, hframes⟩ := s.exists_frames_bind name confined new
  refine ⟨b, hvalue, fun depth other => ?_⟩
  rw [binding?, hframes]
  by_cases hdepth : s.depthOf name confined = depth
  · subst hdepth
    rw [List.getElem?_set_self (List.getElem?_eq_some_iff.1 hold).1, Option.bind_some,
      Table.get?_insert, binding?, hold]
    by_cases hother : other = name
    · rw [if_pos hother, if_pos ⟨rfl, hother⟩]
    · rw [if_neg hother, if_neg fun h => hother h.2]
      rfl
  · rw [List.getElem?_set_ne hdepth, if_neg fun h => hdepth h.1.symm, binding?]

/-- No frame holds the name in front of the one that the binding is made in. -/
theorem binding?_eq_none_of_lt_depthOf {confined : Bool} {depth : Nat}
    (h : depth < s.depthOf name confined) : s.binding? depth name = none := by
  cases confined with
  | true => exact absurd h (Nat.not_lt_zero depth)
  | false =>
    rw [depthOf, if_neg Bool.false_ne_true] at h
    have hlt : depth < s.blocks.length := Nat.lt_of_lt_of_le h List.findIdx_le_length
    have hnone : s.blocks[depth].contains name = false := List.not_of_lt_findIdx h
    rw [binding?_of_lt hlt]
    exact Option.not_isSome_iff_eq_none.1 (Bool.eq_false_iff.1 hnone)

/-- A plain assignment that changes a block changes a name that the block holds. -/
theorem isSome_binding?_depthOf (h : s.depthOf name false < s.blocks.length) :
    (s.binding? (s.depthOf name false) name).isSome := by
  have hholds : s.blocks[s.depthOf name false].contains name = true :=
    List.findIdx_getElem (p := (Table.contains · name)) (w := h)
  rw [binding?_of_lt h]
  exact hholds

theorem length_blocks_bind (s : Scope) (name : String) (confined : Bool) (new : Value) :
    (s.bind name confined new).blocks.length = s.blocks.length := by
  obtain ⟨old, b, -, -, hframes⟩ := s.exists_frames_bind name confined new
  have hlength := congrArg List.length hframes
  rw [List.length_set, length_frames, length_frames] at hlength
  exact Nat.succ.inj hlength

/-- What is bound is looked up, whatever frame it went to. -/
theorem lookup?_bind (s : Scope) (name : String) (confined : Bool) (new : Value) :
    (s.bind name confined new).lookup? name = some new := by
  obtain ⟨old, b, hold, rfl, hframes⟩ := s.exists_frames_bind name confined new
  have hlt := (List.getElem?_eq_some_iff.1 hold).1
  rw [lookup?, Option.map_eq_some_iff]
  refine ⟨b, List.findSome?_eq_some_iff.2 ⟨s.frames.take (s.depthOf name confined), _,
    s.frames.drop (s.depthOf name confined + 1), ?_, Table.get?_insert_self old name b, ?_⟩, rfl⟩
  · rw [hframes, List.set_eq_take_append_cons_drop, if_pos hlt]
  · intro frame hframe
    obtain ⟨depth, hdepth, rfl⟩ := List.mem_take_iff_getElem.1 hframe
    have hfront : s.binding? depth name = none :=
      binding?_eq_none_of_lt_depthOf (Nat.lt_of_lt_of_le hdepth (Nat.min_le_left _ _))
    rwa [binding?, List.getElem?_eq_getElem, Option.bind_some] at hfront

theorem bindsAs_push (h : s.push.BindsAs name value) : s.BindsAs name value := by
  obtain ⟨frame, hframe, b, hget, rfl⟩ := h
  rcases List.mem_cons.1 hframe with rfl | hframe
  · cases hget
  · exact ⟨frame, hframe, b, hget, rfl⟩

theorem bindsAs_pop (h : s.pop.BindsAs name value) : s.BindsAs name value := by
  obtain ⟨frame, hframe, b, hget, rfl⟩ := h
  refine ⟨frame, ?_, b, hget, rfl⟩
  rcases List.mem_append.1 hframe with hframe | hframe
  · exact List.mem_append_left _ (List.mem_of_mem_tail hframe)
  · exact List.mem_append_right _ hframe

theorem binds_push (h : s.push.Binds value) : s.Binds value := by
  obtain ⟨name, hname⟩ := binds_iff.1 h
  exact binds_iff.2 ⟨name, bindsAs_push hname⟩

theorem binds_pop (h : s.pop.Binds value) : s.Binds value := by
  obtain ⟨name, hname⟩ := binds_iff.1 h
  exact binds_iff.2 ⟨name, bindsAs_pop hname⟩

theorem mem_frames_bind {confined : Bool} {new : Value} {frame : Frame}
    (h : frame ∈ (s.bind name confined new).frames) :
    frame ∈ s.frames ∨
      ∃ old ∈ s.frames, ∃ b : Binding, b.value = new ∧ frame = old.insert name b := by
  obtain ⟨old, b, hold, hvalue, hframes⟩ := s.exists_frames_bind name confined new
  rw [hframes] at h
  rcases List.mem_or_eq_of_mem_set h with h | rfl
  · exact .inl h
  · exact .inr ⟨old, List.mem_of_getElem? hold, b, hvalue, rfl⟩

theorem bindsAs_bind {other : String} {confined : Bool} {new : Value}
    (h : (s.bind name confined new).BindsAs other value) :
    other = name ∧ value = new ∨ s.BindsAs other value := by
  obtain ⟨frame, hframe, b, hget, rfl⟩ := h
  rcases mem_frames_bind hframe with hold | ⟨old, hold, bound, rfl, rfl⟩
  · exact .inr ⟨frame, hold, b, hget, rfl⟩
  · rw [Table.get?_insert] at hget
    split at hget
    next heq => exact .inl ⟨heq, congrArg Binding.value (Option.some.inj hget).symm⟩
    next => exact .inr ⟨old, hold, b, hget, rfl⟩

theorem binds_bind {confined : Bool} {new : Value} (h : (s.bind name confined new).Binds value) :
    value = new ∨ s.Binds value := by
  obtain ⟨other, hother⟩ := binds_iff.1 h
  rcases bindsAs_bind hother with ⟨-, heq⟩ | hold
  · exact .inl heq
  · exact .inr (binds_iff.2 ⟨other, hold⟩)

theorem binds_seed {new : Value} (h : (s.seed name new).Binds value) :
    value = new ∨ s.Binds value := by
  obtain ⟨frame, hframe, other, b, hget, rfl⟩ := h
  rcases List.mem_append.1 hframe with hframe | hframe
  · exact .inr ⟨frame, List.mem_append_left _ hframe, other, b, hget, rfl⟩
  · rw [List.mem_singleton] at hframe
    subst hframe
    rw [seed, Table.get?_insert] at hget
    split at hget
    · exact .inl (congrArg Binding.value (Option.some.inj hget).symm)
    · exact .inr ⟨s.file, by simp [frames], other, b, hget, rfl⟩

theorem binds_seedAll {bindings : List (String × Value)} (h : (s.seedAll bindings).Binds value) :
    (∃ name, (name, value) ∈ bindings) ∨ s.Binds value := by
  induction bindings generalizing s with
  | nil => exact .inr h
  | cons first more ih =>
    rcases ih h with ⟨name, hname⟩ | hseed
    · exact .inl ⟨name, List.mem_cons_of_mem _ hname⟩
    · rcases binds_seed hseed with rfl | hold
      · exact .inl ⟨first.1, by simp⟩
      · exact .inr hold

theorem blocks_seedAll (s : Scope) (bindings : List (String × Value)) :
    (s.seedAll bindings).blocks = s.blocks := by
  induction bindings generalizing s with
  | nil => rfl
  | cons first more ih => exact ih (s.seed first.1 first.2)

theorem get?_file_seedAll {entries : List (String × Value)}
    (hsorted : entries.Pairwise (fun a b => a.1 < b.1)) (name : String) :
    (s.seedAll entries).file.get? name =
      ((Table.find? name entries).map (Binding.mk · .seeded)).or (s.file.get? name) := by
  induction entries generalizing s with
  | nil => rfl
  | cons first more ih =>
    obtain ⟨hlt, hmore⟩ := List.pairwise_cons.1 hsorted
    have hseed : (s.seedAll (first :: more)).file.get? name =
        ((Table.find? name more).map (Binding.mk · .seeded)).or
          ((s.seed first.1 first.2).file.get? name) := ih hmore
    rw [hseed, seed, Table.get?_insert, Table.find?]
    by_cases heq : name = first.1
    · rw [if_pos heq, if_pos heq, Table.find?_eq_none_of_lt (heq ▸ hlt)]
      rfl
    · rw [if_neg heq, if_neg heq]

/-- What a table binds is found, whatever was bound before. -/
theorem lookup?_seedAll_toList {table : Table Value} (hblocks : s.blocks = [])
    (h : table.get? name = some value) : (s.seedAll table.toList).lookup? name = some value := by
  have hfind : Table.find? name table.toList = some value := h
  have hfile := get?_file_seedAll (s := s) table.sorted name
  rw [Table.toList] at hfind ⊢
  rw [lookup?, frames, blocks_seedAll, hblocks, List.nil_append, List.findSome?_singleton, hfile,
    hfind]
  rfl

theorem not_binds_empty (value : Value) : ¬ empty.Binds value := by
  rintro ⟨frame, hframe, name, b, hget, -⟩
  rw [frames, empty, List.nil_append, List.mem_singleton] at hframe
  subst hframe
  cases hget

theorem value_get?_assignFile (frame : Frame) (name other : String) (new : Value) :
    ((assignFile frame name new).get? other).map (·.value) =
      if other = name then some new else (frame.get? other).map (·.value) := by
  unfold assignFile
  split <;> rw [Table.get?_insert] <;> split <;> rfl

/-- A binding that reaches the file frame is the file's, and any other leaves that frame alone. -/
theorem value_get?_file_bind (s : Scope) (name other : String) (confined : Bool) (new : Value) :
    ((s.bind name confined new).file.get? other).map (·.value) =
      if s.reachesFile name confined then
        if other = name then some new else (s.file.get? other).map (·.value)
      else (s.file.get? other).map (·.value) := by
  cases confined with
  | true =>
    cases hblocks : s.blocks with
    | nil =>
      simp only [bind, if_true, confine, hblocks, reachesFile, List.isEmpty_nil, Table.get?_insert]
      split <;> rfl
    | cons inner outer => simp [bind, confine, hblocks, reachesFile]
  | false =>
    simp only [bind, Bool.false_eq_true, if_false, assign, reachesFile]
    cases hblocks : assignBlocks? name new s.blocks with
    | none =>
      rw [if_pos ((assignBlocks?_eq_none_iff new s.blocks).1 hblocks)]
      exact value_get?_assignFile s.file name other new
    | some blocks =>
      rw [if_neg fun hall => ?_]
      rw [(assignBlocks?_eq_none_iff new s.blocks).2 hall] at hblocks
      cases hblocks

end SceneScript.Scope
