import SceneScript.Proofs.Run.Reports

namespace SceneScript

/-- Whether the entry is the error of a statement that failed, and not the limit of a loop. -/
def Notice.isStatementError : Notice → Bool
  | error d => !d.cause.isLimit
  | _ => false

/-- What is written of an error has the line and the column that one of the tokens begins at, and
what is written of a warning has the line. -/
def Notice.Cites (tokens : List Token) : Notice → Prop
  | error d => ∃ t ∈ tokens, (error d).text =
      s!"[line {t.span.line}:{t.span.column}] Error: {d.cause.message}"
  | warning line concern => ∃ t ∈ tokens, (warning line concern).text =
      s!"Warning: [line {t.span.line}] {concern.message}"
  | missingModule .. => False
  | forwarded .. => False

/-- A statement of the file, which was read from these tokens, runs and adds these entries. -/
structure Machine.Adds (m : Machine) (part : Stmt × List Token) (entries : List Notice)
    (after : Machine) : Prop where
  runs : m.runStatement part.1 = .ok after
  appended : after.notices.toList = m.notices.toList ++ entries
  cites : ∀ n ∈ entries, n.Cites part.2
  of_success (ended : Machine) : Run.execute part.1 m = (.ok (), ended) →
    ∀ n ∈ entries, n.isStatementError = false
  of_failure (d : Diagnostic) (ended : Machine) : Run.execute part.1 m =
    (.error (.fault d), ended) →
    ∃ others n, entries = others ++ [n] ∧ n = .error (d.orSpan part.1.span) ∧
      n.isStatementError = true ∧ ∀ other ∈ others, other.isStatementError = false

/-- The statements of a file run one after the other, and each adds its entries. -/
inductive Machine.AddsAll :
    Machine → List (Stmt × List Token) → List (List Notice) → Machine → Prop
  | nil (m : Machine) : AddsAll m [] [] m
  | cons {m between after : Machine} {part : Stmt × List Token} {parts : List (Stmt × List Token)}
      {entries : List Notice} {later : List (List Notice)} :
    m.Adds part entries between → AddsAll between parts later after →
      AddsAll m (part :: parts) (entries :: later) after

section
variable {P : Span → Prop} {d : Diagnostic} {n : Notice} {tokens : List Token}

/-- An error at a place that begins with a token cites it. -/
theorem Notice.cites_error {cause : Cause} {s : Span} (hcause : cause.isSyntax = false)
    (hs : s.BeginsIn tokens) : (error ⟨cause, some s, none⟩).Cites tokens := by
  obtain ⟨t, ht, hline, hcolumn⟩ := hs
  have hlabel : cause.label = "Error" := by rw [Cause.label, hcause, if_neg Bool.false_ne_true]
  have hword : "] Error: " = "] " ++ ("Error" ++ ": ") := rfl
  refine ⟨t, ht, ?_⟩
  rw [text, Diagnostic.text, hlabel, hline, hcolumn]
  simp only [toString, String.append_empty, String.append_assoc, hword]

theorem Notice.IsReport.cites (h : n.IsReport (·.BeginsIn tokens)) : n.Cites tokens := by
  cases n with
  | error d =>
    obtain ⟨most, s, rfl, hs⟩ := h
    exact cites_error rfl hs
  | warning line concern =>
    obtain ⟨s, ⟨t, ht, hline, -⟩, rfl⟩ := h
    have hword : "Warning: [line " = warningMark ++ "[line " := rfl
    refine ⟨t, ht, ?_⟩
    rw [hline, text]
    simp only [toString, String.append_assoc, hword]
  | missingModule => exact h
  | forwarded => exact h

theorem Notice.IsReport.isStatementError (h : n.IsReport P) : n.isStatementError = false := by
  cases n with
  | error d =>
    obtain ⟨most, s, rfl, -⟩ := h
    rfl
  | _ => rfl

/-- A fault is reported at the place of the statement, if it has none by then. -/
theorem Diagnostic.FailsAt.cites (h : d.FailsAt (·.BeginsIn tokens)) {span : Span}
    (hspan : span.BeginsIn tokens) : (Notice.error (d.orSpan span)).Cites tokens := by
  have hcause : d.cause.isSyntax = false :=
    Cause.isSyntax_of_isOfRun (Cause.isOfRun_of_failsStatement h.cause)
  have hplace : (d.span.getD span).BeginsIn tokens := (h.orSpan hspan).place _ rfl
  rw [Diagnostic.orSpan, h.unquoted]
  exact Notice.cites_error hcause hplace

end

namespace Machine
variable {m after : Machine}

/-- A statement of the file adds reports about its own places, and at last the error it fails
with. -/
theorem exists_adds_of_runStatement {s : Stmt} {tokens : List Token}
    (hs : s.Placed (·.BeginsIn tokens)) (h : m.runStatement s = .ok after) :
    ∃ entries, m.Adds (s, tokens) entries after := by
  have hreports := Run.reports_execute s hs
  rcases runStatement_cases h with hran | ⟨d, ended, hran, hafter⟩
  · obtain ⟨entries, happended, hall⟩ := hreports.keeps.rel hran
    refine ⟨entries, h, happended, fun n hn => (hall n hn).cites,
      fun _ _ n hn => (hall n hn).isStatementError, fun d ended hfails => ?_⟩
    rw [hran] at hfails
    cases hfails
  · obtain ⟨others, happended, hall⟩ := hreports.keeps.rel hran
    have hfault := hreports.fault m ended d hran
    have hlast : (Notice.error (d.orSpan s.span)).isStatementError = true :=
      Cause.not_isLimit_of_failsStatement hfault.cause
    refine ⟨others ++ [.error (d.orSpan s.span)], h, ?_, ?_, fun _ hends => ?_,
      fun _ _ hfails => ?_⟩
    · rw [hafter, Array.toList_push, happended, List.append_assoc]
    · refine List.forall_mem_append.2 ⟨fun n hn => (hall n hn).cites, fun n hn => ?_⟩
      obtain rfl := List.mem_singleton.1 hn
      exact hfault.cites hs.span
    · rw [hran] at hends
      cases hends
    · rw [hran] at hfails
      cases hfails
      exact ⟨others, _, rfl, rfl, hlast, fun n hn => (hall n hn).isStatementError⟩

/-- What the statements add stands in their order behind what was there. -/
theorem AddsAll.appended {parts : List (Stmt × List Token)} {entries : List (List Notice)}
    (h : m.AddsAll parts entries after) :
    after.notices.toList = m.notices.toList ++ entries.flatten := by
  induction h with
  | nil m => rw [List.flatten_nil, List.append_nil]
  | cons hfirst _ ih => rw [ih, hfirst.appended, List.flatten_cons, List.append_assoc]

theorem exists_addsAll_of_foldlM {parts : List (Stmt × List Token)}
    (hparts : ∀ part ∈ parts, part.1.Placed (·.BeginsIn part.2))
    (h : (parts.map Prod.fst).foldlM runStatement m = .ok after) :
    ∃ entries, m.AddsAll parts entries after := by
  induction parts generalizing m with
  | nil =>
    cases h
    exact ⟨[], .nil _⟩
  | cons part parts ih =>
    obtain ⟨hpart, hmore⟩ := List.forall_mem_cons.1 hparts
    obtain ⟨between, hrun, hrest⟩ := exists_of_foldlM_cons h
    obtain ⟨first, hfirst⟩ := exists_adds_of_runStatement hpart hrun
    obtain ⟨later, hlater⟩ := ih hmore hrest
    exact ⟨first :: later, .cons hfirst hlater⟩

end Machine

namespace Program

/-- The statements of a program are read from pieces of its tokens, and whatever modules it runs
with, the entries of its run are those that the statements add, in their order: each cites a token
of the piece of its statement, and a statement that fails adds one error of its own, which comes
last. -/
theorem entries_cite_statements {source : String} {p : Program} (h : ofSource source = .ok p) :
    ∃ parts, Cuts (body (Token.ofSource source)) parts ∧ p.statements = parts.map Prod.fst ∧
      ∀ (modules : Table Value) (store : Store) (r : Result), p.run modules store = .ok r →
        ∃ (entries : List (List Notice)) (after : Machine),
          Machine.AddsAll (.start modules store) parts entries after ∧ r = after.result ∧
            r.notices = entries.flatten := by
  obtain ⟨parts, hcuts, hstatements⟩ := exists_cuts_of_ofTokens h
  refine ⟨parts, hcuts, hstatements, fun modules store r hrun => ?_⟩
  obtain ⟨after, hend, rfl⟩ := run_eq_ok_iff.1 hrun
  rw [hstatements] at hend
  obtain ⟨entries, hadds⟩ := Machine.exists_addsAll_of_foldlM hcuts.placed hend
  exact ⟨entries, after, hadds, rfl, hadds.appended⟩

/-- A warning and an error inside a branch, and an error of the statement after it. -/
theorem entries_cite_branch_and_print :
    let source := "g = group [a];\nif \"go\" \x7b\n  g.material = missing;\n" ++
      "  lost.pos = \"up\";\n\x7d\nconsole.print(lost)"
    ∃ p r parts entries after, ofSource source = .ok p ∧ p.run .empty .empty = .ok r ∧
      Cuts (body (Token.ofSource source)) parts ∧
      Machine.AddsAll (.start .empty .empty) parts entries after ∧ r.notices = entries.flatten ∧
      r.errors = ["Warning: [line 3] material could not be resolved: undefined variable 'missing'",
        "[line 4:3] Error: no scene object named 'lost'",
        "[line 6:15] Error: undefined variable 'lost'"] := by
  intro source
  have hends : ((ofSource source).toOption.bind fun p =>
      (p.run .empty .empty).toOption.map Result.errors) =
      some ["Warning: [line 3] material could not be resolved: undefined variable 'missing'",
        "[line 4:3] Error: no scene object named 'lost'",
        "[line 6:15] Error: undefined variable 'lost'"] := by decide +kernel
  cases hsource : ofSource source with
  | error d =>
    rw [hsource] at hends
    cases hends
  | ok p =>
    cases hrun : p.run .empty .empty with
    | error stop =>
      simp only [hsource, Except.toOption, Option.bind_some, hrun, Option.map_none] at hends
      cases hends
    | ok r =>
      simp only [hsource, Except.toOption, Option.bind_some, hrun, Option.map_some] at hends
      obtain ⟨parts, hcuts, -, hall⟩ := entries_cite_statements hsource
      obtain ⟨entries, after, hadds, -, hnotices⟩ := hall .empty .empty r hrun
      exact ⟨p, r, parts, entries, after, rfl, hrun, hcuts, hadds, hnotices, Option.some.inj hends⟩

end Program
end SceneScript
