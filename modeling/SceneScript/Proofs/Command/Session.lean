import SceneScript.Command.Session
import SceneScript.Proofs.Module.Appended

namespace SceneScript

theorem Result.length_errors (r : Result) : r.errors.length = r.notices.length := by
  rw [errors, List.length_map]

/-- The source that a session begins with is a program without statements. -/
theorem Program.ofSource_empty : ofSource "" = .ok ⟨[]⟩ := by
  have hlength : (ofSource "").toOption.map (·.statements.length) = some 0 := by decide +kernel
  obtain ⟨⟨statements⟩, hprogram, hnone⟩ := exists_of_toOption_map hlength
  obtain rfl : statements = [] := List.eq_nil_of_length_eq_zero hnone
  exact hprogram

/-- Logs and errors are shown apart from each other. -/
theorem perm_lines_iff {logs logs' : List String} {errors errors' : List Line}
    (herrors : ∀ line ∈ errors, line.out? = none) (herrors' : ∀ line ∈ errors', line.out? = none) :
    (logs.map Line.out ++ errors).Perm (logs'.map Line.out ++ errors') ↔
      logs.Perm logs' ∧ errors.Perm errors' := by
  constructor
  · intro h
    have hlogs := h.filterMap Line.out?
    have hout : ∀ logs : List String, (logs.map Line.out).filterMap Line.out? = logs := by
      intro logs
      rw [List.filterMap_map]
      exact List.filterMap_some
    rw [List.filterMap_append, List.filterMap_append, hout, hout,
      List.filterMap_eq_nil_iff.2 herrors, List.filterMap_eq_nil_iff.2 herrors', List.append_nil,
      List.append_nil] at hlogs
    refine ⟨hlogs, ?_⟩
    exact (List.perm_append_left_iff _).1 (h.trans ((hlogs.symm.map Line.out).append_right _))
  · rintro ⟨hlogs, herrors⟩
    exact (hlogs.map _).append herrors

namespace Session

def cleared (s : Session) : Session := { s with source := "", last := default }

/-- The session takes a line into its source: with it the source is a program, and is compiled. -/
structure Accepts (s : Session) (colored : Bool) (files : Table String) (line : String)
    (lines : List Line) (s' : Session) : Prop where
  program : ∃ p, Program.ofSource (s.source ++ line ++ "\n") = .ok p
  entered : s.enter colored files line = (lines, .next s')

variable {loader : Module.Loader} {colored : Bool} {files : Table String} {s s' : Session}
  {shown lines : List Line} {line : String}

theorem Accepts.compile (h : s.Accepts colored files line lines s') :
    s.loader.compile (s.source ++ line ++ "\n") files = .ok (s'.last, s'.loader) ∧
      s'.source = s.source ++ line ++ "\n" ∧
      lines = s'.last.show colored s.last.logs.length s.last.notices.length := by
  obtain ⟨⟨p, hp⟩, hentered⟩ := h
  unfold enter at hentered
  simp only [hp] at hentered
  cases hcompile : s.loader.compile (s.source ++ line ++ "\n") files with
  | error abort =>
    rw [hcompile] at hentered
    cases hentered
  | ok compiled =>
    rw [hcompile] at hentered
    cases hentered
    exact ⟨rfl, rfl, rfl⟩

theorem accepts_of_enter (h : s.enter colored files line = (lines, .next s')) :
    s' = s ∨ s.Accepts colored files line lines s' := by
  cases hprogram : Program.ofSource (s.source ++ line ++ "\n") with
  | error d =>
    unfold enter at h
    simp only [hprogram] at h
    cases h
    exact .inl rfl
  | ok p => exact .inr ⟨⟨p, hprogram⟩, h⟩

/-- A line that is typed leaves a session as it is, clears it, or is accepted. -/
theorem accepts_of_step {input : String} (h : s.step colored files input = (lines, .next s')) :
    s' = s ∨ s' = s.cleared ∨ ∃ line, s.Accepts colored files line lines s' := by
  unfold step at h
  split at h
  next typed htyped =>
    unfold answer at h
    split at h
    · cases h
      exact .inl rfl
    · cases h
    · cases h
    · cases h
      exact .inl rfl
    · cases h
      exact .inr (.inl rfl)
    · cases h
      exact .inl rfl
    · rcases accepts_of_enter h with rfl | haccepts
      · exact .inl rfl
      · exact .inr (.inr ⟨_, haccepts⟩)
  next => cases h

/-- A session, and what it has shown for accepted lines since it began or was cleared. -/
inductive Shows (loader : Module.Loader) (colored : Bool) (files : Table String) :
    Session → List Line → Prop
  | start : Shows loader colored files (.start loader) []
  | cleared {s : Session} {shown : List Line} : Shows loader colored files s shown →
      Shows loader colored files s.cleared []
  | accepted {s s' : Session} {shown lines : List Line} {line : String} :
      Shows loader colored files s shown → s.Accepts colored files line lines s' →
      Shows loader colored files s' (shown ++ lines)

/-- Every session that typed lines lead to has shown something. -/
theorem Shows.step (h : Shows loader colored files s shown) {input : String}
    (hstep : s.step colored files input = (lines, .next s')) :
    Shows loader colored files s' shown ∨ Shows loader colored files s' [] ∨
      Shows loader colored files s' (shown ++ lines) := by
  rcases accepts_of_step hstep with rfl | rfl | ⟨line, haccepts⟩
  · exact .inl h
  · exact .inr (.inl h.cleared)
  · exact .inr (.inr (h.accepted haccepts))

theorem perm_show (r : Result) (colored : Bool) (logsSeen errorsSeen : Nat) :
    (r.show colored 0 0).Perm (((r.logs.take logsSeen).map Line.out ++
      (r.errors.take errorsSeen).map (showNotice colored)) ++
        r.show colored logsSeen errorsSeen) := by
  have hlogs := List.take_append_drop logsSeen r.logs
  have herrors := List.take_append_drop errorsSeen r.errors
  unfold Result.show
  rw [List.drop_zero, List.drop_zero]
  nth_rewrite 1 [← hlogs, ← herrors]
  rw [List.map_append, List.map_append, List.append_assoc, List.append_assoc]
  refine List.Perm.append_left _ ?_
  rw [← List.append_assoc, ← List.append_assoc]
  exact List.perm_append_comm.append_right _

theorem out?_showNotice (errors : List String) :
    ∀ line ∈ errors.map (showNotice colored), line.out? = none := by
  intro line hline
  obtain ⟨text, -, rfl⟩ := List.mem_map.1 hline
  rfl

/-- If everything was shown once before a line is accepted, it is so afterwards exactly if what was
shown comes first in the new result, in whatever order. -/
theorem Accepts.perm_show_iff (h : s.Accepts colored files line lines s')
    (hshown : shown.Perm (s.last.show colored 0 0)) :
    (shown ++ lines).Perm (s'.last.show colored 0 0) ↔
      s.last.logs.Perm (s'.last.logs.take s.last.logs.length) ∧
      (s.last.errors.map (showNotice colored)).Perm
        ((s'.last.errors.take s.last.notices.length).map (showNotice colored)) := by
  obtain ⟨-, -, rfl⟩ := h.compile
  have hnew := perm_show s'.last colored s.last.logs.length s.last.notices.length
  rw [← perm_lines_iff (out?_showNotice _) (out?_showNotice _)]
  constructor
  · intro hperm
    exact hshown.symm.trans ((List.perm_append_right_iff _).1 (hperm.trans hnew))
  · intro hfirst
    exact ((hshown.trans hfirst).append_right _).trans hnew.symm

theorem Accepts.perm_show_of_isPrefix (h : s.Accepts colored files line lines s')
    (hshown : shown.Perm (s.last.show colored 0 0)) (hfirst : s.last.IsPrefix s'.last) :
    (shown ++ lines).Perm (s'.last.show colored 0 0) := by
  refine (h.perm_show_iff hshown).2 ⟨?_, ?_⟩
  · rw [← List.prefix_iff_eq_take.1 hfirst.logs]
  · have herrors : s.last.errors <+: s'.last.errors := hfirst.notices.map _
    rw [← Result.length_errors, ← List.prefix_iff_eq_take.1 herrors]

/-- A session whose lines were all appended in order, with what it has shown for them: a line that
imports comes after imports alone, and no result but the last reports a stand-in. -/
inductive Orderly (loader : Module.Loader) (colored : Bool) (files : Table String) :
    Session → List Line → Prop
  | start : Orderly loader colored files (.start loader) []
  | cleared {s : Session} {shown : List Line} : Orderly loader colored files s shown →
      Orderly loader colored files s.cleared []
  | accepted {s s' : Session} {shown lines : List Line} {line : String} {p p' : Program} :
      Orderly loader colored files s shown → Program.ofSource s.source = .ok p →
      Program.ofSource (s.source ++ line ++ "\n") = .ok p' → p.AppendsInOrder p' →
      (∀ n ∈ s.last.notices, n.reportsFallback = false) →
      s.Accepts colored files line lines s' → Orderly loader colored files s' (shown ++ lines)

theorem Orderly.shows (h : Orderly loader colored files s shown) :
    Shows loader colored files s shown := by
  -- The new result begins with the one before, so to leave out as many entries leaves out those.
  induction h with
  | start => exact .start
  | cleared _ ih => exact ih.cleared
  | accepted _ _ _ _ _ haccepts ih => exact ih.accepted haccepts

variable {config : Module.Config} {remote : Module.Remote}

/-- The last result is what the source compiled to, or the session has no source. -/
structure Current (s : Session) (config : Module.Config) (remote : Module.Remote)
    (files : Table String) : Prop where
  reached : s.loader.Reached config remote
  last : s.last = default ∨ ∃ before : Module.Loader, before.Reached config remote ∧
    before.compile s.source files = .ok (s.last, s.loader)

theorem Shows.current (hloader : loader.Reached config remote)
    (h : Shows loader colored files s shown) : s.Current config remote files := by
  induction h with
  | start => exact ⟨hloader, .inl rfl⟩
  | cleared _ ih => exact ⟨ih.reached, .inl rfl⟩
  | accepted _ haccepts ih =>
    obtain ⟨hcompile, hsource, -⟩ := haccepts.compile
    refine ⟨ih.reached.compileRoot hcompile, .inr ⟨_, ih.reached, ?_⟩⟩
    rw [hsource]
    exact hcompile

/-- A session whose lines were appended in order has shown everything once. -/
theorem Orderly.perm_show (hsteady : remote.Steady) (hfinite : remote.Finite)
    (hloader : loader.Reached config remote) (h : Orderly loader colored files s shown) :
    shown.Perm (s.last.show colored 0 0) := by
  induction h with
  | start => exact .refl _
  | cleared => exact .refl _
  | accepted hbefore hp hp' horder hnone haccepts ih =>
    refine haccepts.perm_show_of_isPrefix ih ?_
    obtain ⟨hreached, hlast⟩ := hbefore.shows.current hloader
    obtain ⟨hcompile, -, -⟩ := haccepts.compile
    rcases hlast with hdefault | ⟨before, hbefore, hlast⟩
    · rw [hdefault]
      exact ⟨List.nil_prefix, List.nil_prefix⟩
    · exact Module.Loader.isPrefix_of_compileRoot hsteady hfinite hbefore hreached
        (Module.Loader.within_of_compileRoot hlast) hp hp' horder hnone hlast hcompile

/-- What a session shows for the lines it accepts. If everything was shown once, it is so after a
further line exactly if the new result begins with what the one before had. And that is always so
if lines only append statements, imports come before everything else, and no remote module is stood
in for. -/
theorem shows_everything_once (hsteady : remote.Steady) (hfinite : remote.Finite)
    (hloader : loader.Reached config remote) :
    (∀ s shown, Shows loader colored files s shown → shown.Perm (s.last.show colored 0 0) →
      ∀ line lines s', s.Accepts colored files line lines s' →
        ((shown ++ lines).Perm (s'.last.show colored 0 0) ↔
          s.last.logs.Perm (s'.last.logs.take s.last.logs.length) ∧
          (s.last.errors.map (showNotice colored)).Perm
            ((s'.last.errors.take s.last.notices.length).map (showNotice colored)))) ∧
    ∀ s shown, Orderly loader colored files s shown → shown.Perm (s.last.show colored 0 0) :=
  ⟨fun _ _ _ hshown _ _ _ haccepts => haccepts.perm_show_iff hshown,
    fun _ _ h => h.perm_show hsteady hfinite hloader⟩

/-- A line fails, and a line after it imports a module that does not exist: the error is shown twice
and the warning, which comes before it in the new result, not at all. -/
theorem import_after_fault_is_hidden :
    let loader := Module.Loader.new .standard .offline
    ∃ s₁ s₂ first second, Orderly loader false .empty s₁ first ∧
      first.Perm (s₁.last.show false 0 0) ∧
      s₁.Accepts false .empty "import ghost" second s₂ ∧ second = first ∧
      ¬ (first ++ second).Perm (s₂.last.show false 0 0) := by
  intro loader
  let fault := "[line 1:5] Error: undefined variable 'y'"
  let warning := "Warning: module 'ghost' not found (line 2)"
  have hrun : (match (start loader).enter false .empty "x = y" with
      | (first, .next s₁) =>
        match s₁.enter false .empty "import ghost" with
        | (second, .next s₂) => some (first, second, s₁.last.errors, s₂.last.errors)
        | _ => none
      | _ => none) = some ([.err fault], [.err fault], [fault], [warning, fault]) := by
    decide +kernel
  obtain ⟨p₁, hp₁⟩ : ∃ p, Program.ofSource ("" ++ "x = y" ++ "\n") = .ok p :=
    exists_of_isSome_toOption (by decide +kernel)
  obtain ⟨p₂, hp₂⟩ : ∃ p,
      Program.ofSource ("" ++ "x = y" ++ "\n" ++ "import ghost" ++ "\n") = .ok p :=
    exists_of_isSome_toOption (by decide +kernel)
  split at hrun
  next first s₁ hfirst =>
    split at hrun
    next second s₂ hsecond =>
      simp only [Option.some.injEq, Prod.mk.injEq] at hrun
      obtain ⟨rfl, rfl, herrors₁, herrors₂⟩ := hrun
      have haccepts₁ : (start loader).Accepts false .empty "x = y" [.err fault] s₁ :=
        ⟨⟨p₁, hp₁⟩, hfirst⟩
      have hsource₁ : s₁.source = "" ++ "x = y" ++ "\n" := haccepts₁.compile.2.1
      have haccepts₂ : s₁.Accepts false .empty "import ghost" [.err fault] s₂ :=
        ⟨⟨p₂, by rw [hsource₁]; exact hp₂⟩, hsecond⟩
      have horderly : Orderly loader false .empty s₁ [.err fault] :=
        .accepted .start Program.ofSource_empty hp₁ ⟨p₁.statements, rfl, .inr fun _ h => nomatch h⟩
          (fun _ h => nomatch h) haccepts₁
      have hall := @shows_everything_once loader false .empty .standard .offline
        Module.Remote.steady_offline Module.Remote.finite_offline .new
      have hshown : [Line.err fault].Perm (s₁.last.show false 0 0) := hall.2 s₁ _ horderly
      refine ⟨s₁, s₂, _, _, horderly, hshown, haccepts₂, rfl, fun hperm => ?_⟩
      -- The first of the new errors would have to be the one that was shown.
      have hlength : s₁.last.notices.length = 1 := by
        rw [← Result.length_errors, herrors₁]
        rfl
      have hfirst := ((hall.1 s₁ _ horderly.shows hshown _ _ s₂ haccepts₂).1 hperm).2
      rw [herrors₁, herrors₂, hlength] at hfirst
      revert hfirst
      decide +kernel
    next => cases hrun
  next => cases hrun

end Session
end SceneScript
