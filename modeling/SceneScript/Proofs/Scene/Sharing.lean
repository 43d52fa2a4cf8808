import Mathlib.Data.List.Pairwise
import SceneScript.Proofs.Run.Visits

namespace SceneScript

namespace Frame
variable {frame old : Frame} {frames before after : List Frame} {name other : String}
  {id : ObjectId} {b : Binding}

/-- The frame binds the name to the object. -/
def Shows (frame : Frame) (name : String) (id : ObjectId) : Prop :=
  ∃ b, frame.get? name = some b ∧ b.value = .object id

def Apart (f g : Frame) : Prop := ∀ id name other, f.Shows name id → ¬ g.Shows other id

instance : Std.Symm Apart where
  symm _ _ h id name other hname hother := h id other name hother hname

/-- No object is bound twice, by one of the frames or by two of them. -/
structure Unshared (frames : List Frame) : Prop where
  within : ∀ frame ∈ frames, ∀ id name other, frame.Shows name id → frame.Shows other id →
    name = other
  apart : frames.Pairwise Apart

theorem shows_insert (h : Shows (old.insert name b) other id) :
    other = name ∧ b.value = .object id ∨ old.Shows other id := by
  obtain ⟨found, hget, hvalue⟩ := h
  rw [Table.get?_insert] at hget
  split at hget
  next heq => exact .inl ⟨heq, Option.some.inj hget ▸ hvalue⟩
  next => exact .inr ⟨found, hget, hvalue⟩

theorem not_shows_empty (name : String) (id : ObjectId) : ¬ Shows .empty name id := by
  rintro ⟨b, hget, -⟩
  cases hget

theorem Unshared.sublist {some : List Frame} (h : Unshared frames) (hsome : some.Sublist frames) :
    Unshared some :=
  ⟨fun frame hframe => h.within frame (hsome.subset hframe), h.apart.sublist hsome⟩

theorem Unshared.cons_empty (h : Unshared frames) : Unshared (.empty :: frames) where
  within frame hframe id name other hname hother := by
    rcases List.mem_cons.1 hframe with rfl | hframe
    · exact absurd hname (not_shows_empty name id)
    · exact h.within frame hframe id name other hname hother
  apart := List.pairwise_cons.2 ⟨fun _ _ id name _ hname => absurd hname (not_shows_empty name id),
    h.apart⟩

/-- A binding may be made to what is no object, and to an object that is not bound yet. -/
theorem Unshared.insert (h : Unshared (before ++ old :: after))
    (hnew : ∀ id, b.value = .object id → ∀ frame ∈ before ++ old :: after, ∀ other,
      ¬ frame.Shows other id) :
    Unshared (before ++ old.insert name b :: after) := by
  have hold : old ∈ before ++ old :: after := by simp
  obtain ⟨hbefore, hafter, happart⟩ := List.pairwise_append.1 h.apart
  obtain ⟨holdAfter, hafter⟩ := List.pairwise_cons.1 hafter
  refine ⟨?_, List.pairwise_append.2 ⟨hbefore, List.pairwise_cons.2 ⟨?_, hafter⟩, ?_⟩⟩
  · intro frame hframe id first second hfirst hsecond
    by_cases hinsert : frame = old.insert name b
    · subst hinsert
      rcases shows_insert hfirst with ⟨hname, hvalue⟩ | hfirst' <;>
        rcases shows_insert hsecond with ⟨hname', hvalue'⟩ | hsecond'
      · exact hname.trans hname'.symm
      · exact absurd hsecond' (hnew id hvalue old hold second)
      · exact absurd hfirst' (hnew id hvalue' old hold first)
      · exact h.within old hold id first second hfirst' hsecond'
    · refine h.within frame ?_ id first second hfirst hsecond
      simp only [List.mem_append, List.mem_cons, hinsert, false_or] at hframe ⊢
      exact hframe.imp_right .inr
  · intro frame hframe id first second hfirst hsecond
    rcases shows_insert hfirst with ⟨-, hvalue⟩ | hfirst
    · exact hnew id hvalue frame (by simp [hframe]) second hsecond
    · exact holdAfter frame hframe id first second hfirst hsecond
  · intro frame hframe frame' hframe' id first second hfirst hsecond
    rcases List.mem_cons.1 hframe' with rfl | hframe'
    · rcases shows_insert hsecond with ⟨-, hvalue⟩ | hsecond
      · exact hnew id hvalue frame (by simp [hframe]) first hfirst
      · exact happart frame hframe old (by simp) id first second hfirst hsecond
    · exact happart frame hframe frame' (by simp [hframe']) id first second hfirst hsecond

end Frame

namespace Scope
variable {s : Scope} {name other : String} {value : Value} {id : ObjectId}

/-- No record is bound twice, also where bindings are shadowed. -/
def Unshared (s : Scope) : Prop := Frame.Unshared s.frames

theorem Unshared.eq_of_lookup? (h : s.Unshared) (hname : s.lookup? name = some (.object id))
    (hother : s.lookup? other = some (.object id)) : name = other := by
  obtain ⟨f, hf, b, hb, hvalue⟩ := bindsAs_of_lookup? hname
  obtain ⟨g, hg, b', hb', hvalue'⟩ := bindsAs_of_lookup? hother
  have hfirst : f.Shows name id := ⟨b, hb, hvalue⟩
  have hsecond : g.Shows other id := ⟨b', hb', hvalue'⟩
  by_cases hne : f = g
  · subst hne
    exact h.within f hf id name other hfirst hsecond
  · exact absurd hsecond (h.apart.forall hf hg hne id name other hfirst)

theorem Unshared.push (h : s.Unshared) : s.push.Unshared := h.cons_empty

theorem Unshared.pop (h : s.Unshared) : s.pop.Unshared :=
  h.sublist ((List.tail_sublist s.blocks).append_right [s.file])

theorem Unshared.bind (h : s.Unshared) (confined : Bool)
    (hnew : ∀ id, value = .object id → ¬ s.Binds (.object id)) :
    (s.bind name confined value).Unshared := by
  obtain ⟨old, b, hold, rfl, hbound⟩ := s.exists_frames_bind name confined value
  obtain ⟨hlt, rfl⟩ := List.getElem?_eq_some_iff.1 hold
  obtain ⟨before, after, hframes, -, hset⟩ := List.exists_of_set hlt
  rw [Unshared, hframes] at h
  rw [Unshared, hbound, hset]
  refine h.insert fun id hid frame hframe other hshows => hnew id hid ?_
  obtain ⟨found, hget, hvalue⟩ := hshows
  exact ⟨frame, hframes ▸ hframe, other, found, hget, hvalue⟩

end Scope

/-- No two names of a table are bound to one record. -/
def Table.Unshared (modules : Table Value) : Prop :=
  ∀ id name other, modules.get? name = some (.object id) → modules.get? other = some (.object id) →
    name = other

namespace Machine
variable {m after : Machine} {placed : List Placement}

/-- A new object is bound nowhere yet. -/
theorem Grounded.not_binds_nextId (hm : m.Grounded) : ¬ m.scope.Binds (.object m.store.nextId) :=
  fun hbinds => m.store.not_hasObject_nextId (hm.scope _ hbinds _ rfl)

theorem Step.unshared (h : Step m placed after) (hm : m.Grounded) (hunshared : m.scope.Unshared) :
    after.scope.Unshared := by
  cases h with
  | evaluate hgrows => rwa [hgrows.scope_eq]
  | enter => exact hunshared.push
  | leave => exact hunshared.pop
  | bind name confined hvalue =>
    refine hunshared.bind confined fun id hid => ?_
    rw [hid] at hvalue
    cases hvalue
  | @place between name confined id hgrows hid =>
    have hbetween : between.Grounded := hm.grow hgrows
    rw [← hgrows.scope_eq] at hunshared
    refine hunshared.bind confined fun id hid => ?_
    cases hid
    exact hbetween.not_binds_nextId
  | _ => exact hunshared

theorem Path.unshared (h : Path m placed after) (hm : m.Grounded) (hunshared : m.scope.Unshared) :
    after.scope.Unshared := by
  -- What is placed is a new record, which no frame can hold yet.
  induction h with
  | start => exact hunshared
  | step hpath hstep ih => exact hstep.unshared (hpath.grounded hm) ih

/-- The constants are no objects. -/
theorem unshared_start {modules : Table Value} (store : Store) (h : modules.Unshared) :
    (start modules store).scope.Unshared := by
  have hframes : (start modules store).scope.frames = [(start modules store).scope.file] := by
    rw [Scope.frames, start, Scope.blocks_seedAll, Scope.standard, Scope.blocks_seedAll]
    rfl
  have hentry : ∀ name id, Frame.Shows (start modules store).scope.file name id →
      modules.get? name = some (.object id) := by
    rintro name id ⟨b, hb, hvalue⟩
    have hsorted : modules.toList.Pairwise (fun a b => a.1 < b.1) := modules.sorted
    rw [start, Scope.get?_file_seedAll hsorted] at hb
    cases hfind : Table.find? name modules.toList with
    | some value =>
      rw [hfind] at hb
      cases hb
      exact hfind.trans (congrArg some hvalue)
    | none =>
      rw [hfind] at hb
      -- What the table does not bind is a constant.
      have hbinds : Scope.standard.Binds (.object id) :=
        ⟨Scope.standard.file, by simp [Scope.frames], name, b, hb, hvalue⟩
      rcases Scope.binds_seedAll hbinds with ⟨constant, hconstant⟩ | hempty
      · cases object?_of_mem_constants hconstant
      · exact absurd hempty (Scope.not_binds_empty _)
  rw [Scope.Unshared, hframes]
  refine ⟨fun frame hframe id name other hname hother => ?_, List.pairwise_singleton _ _⟩
  rw [List.mem_singleton.1 hframe] at hname hother
  exact h id name other (hentry name id hname) (hentry other id hother)

theorem Moves.unshared {modules : Table Value} {store : Store}
    (h : (start modules store).Moves m) (hsupplies : store.Supplies modules)
    (hunshared : modules.Unshared) : m.scope.Unshared := by
  obtain ⟨placed, hroute⟩ := h
  exact hroute.path.unshared (grounded_start hsupplies) (unshared_start store hunshared)

end Machine
end SceneScript
