import SceneScript.Proofs.Program.InStepStmt
import SceneScript.Proofs.Program.Unplaced
import SceneScript.Proofs.Token.Layout

namespace SceneScript

section Unplaced
variable {es es' : List Expr} {ps ps' : List (Property Expr)} {block block' : List Stmt}

theorem Expr.unplacedAll_congr (h : List.Forall₂ (fun a b => a.unplaced = b.unplaced) es es') :
    unplacedAll es = unplacedAll es' := by
  induction h with
  | nil => rfl
  | cons hab _ ih => rw [unplacedAll, unplacedAll, hab, ih]

theorem Expr.unplacedProperties_congr
    (h : List.Forall₂ (Property.Rel fun a b => a.unplaced = b.unplaced) ps ps') :
    unplacedProperties ps = unplacedProperties ps' := by
  induction h with
  | nil => rfl
  | cons hab _ ih =>
    rw [unplacedProperties, unplacedProperties, ih]
    cases hab with
    | single h => rw [unplacedProperty, unplacedProperty, h]
    | list h => rw [unplacedProperty, unplacedProperty, unplacedAll_congr h]

theorem Triple.unplaced_congr {a b : Triple}
    (h : Triple.Rel (fun a b => a.unplaced = b.unplaced) a b) : a.unplaced = b.unplaced := by
  rw [Triple.unplaced, Triple.unplaced, h.x, h.y, h.z]

theorem AssignedValue.unplaced_congr {a b : AssignedValue}
    (h : AssignedValue.Rel (fun a b => a.unplaced = b.unplaced) a b) : a.unplaced = b.unplaced := by
  cases h with
  | expr h => rw [AssignedValue.unplaced, AssignedValue.unplaced, h]
  | triple h => rw [AssignedValue.unplaced, AssignedValue.unplaced, Triple.unplaced_congr h]
  | relative h =>
    cases h with
    | none => rfl
    | some h =>
      rw [AssignedValue.unplaced, AssignedValue.unplaced, Option.map_some, Option.map_some,
        Triple.unplaced_congr h]

theorem Stmt.unplacedAll_congr
    (h : List.Forall₂ (fun a b => a.unplaced = b.unplaced) block block') :
    unplacedAll block = unplacedAll block' := by
  induction h with
  | nil => rfl
  | cons hab _ ih => rw [unplacedAll, unplacedAll, hab, ih]

theorem Stmt.unplacedElse_congr {other other' : Option (List Stmt)}
    (h : Option.Rel (List.Forall₂ fun a b => a.unplaced = b.unplaced) other other') :
    unplacedElse other = unplacedElse other' := by
  cases h with
  | none => rfl
  | some h => rw [unplacedElse, unplacedElse, unplacedAll_congr h]

end Unplaced

def Likeness.unplaced (places : Span → Span → Prop) : Likeness where
  span := places
  expr a b := a.unplaced = b.unplaced
  stmt a b := a.unplaced = b.unplaced
  number _ _ := rfl
  string _ _ := rfl
  reference _ _ _ := rfl
  negation _ h := by rw [Expr.negation, Expr.negation, Expr.unplaced, Expr.unplaced, h]; rfl
  operation op h h' := by
    rw [Expr.operation, Expr.operation, Expr.unplaced, Expr.unplaced, h, h']
  call _ _ _ h := by rw [Expr.unplaced, Expr.unplaced, Expr.unplacedAll_congr h]
  cube _ _ := rfl
  mesh _ _ _ := rfl
  material _ h := by rw [Expr.unplaced, Expr.unplaced, Expr.unplacedProperties_congr h]
  modifier _ _ h := by rw [Expr.unplaced, Expr.unplaced, Expr.unplacedProperties_congr h]
  group _ _ := rfl
  imports _ _ _ _ := rfl
  assign _ _ _ h := by rw [Stmt.unplaced, Stmt.unplaced, h]
  setProperty _ _ _ _ h := by rw [Stmt.unplaced, Stmt.unplaced, AssignedValue.unplaced_congr h]
  callMethod _ _ _ _ h := by rw [Stmt.unplaced, Stmt.unplaced, Expr.unplacedAll_congr h]
  print _ h := by rw [Stmt.unplaced, Stmt.unplaced, h]
  branch _ hc hblock hother := by
    rw [Stmt.unplaced, Stmt.unplaced, hc, Stmt.unplacedAll_congr hblock,
      Stmt.unplacedElse_congr hother]
  whileLoop _ hc hbody := by rw [Stmt.unplaced, Stmt.unplaced, hc, Stmt.unplacedAll_congr hbody]
  forLoop _ _ hstart hstop hstep hbody := by
    rw [Stmt.unplaced, Stmt.unplaced, hstart, hstop, Stmt.unplacedAll_congr hbody]
    cases hstep with
    | none => rfl
    | some h => rw [Option.map_some, Option.map_some, h]

namespace Program
variable {source text : String} {ts us : List Token}

/-- Places of tokens at the same index of two lists. -/
def SamePlace (ts us : List Token) (s s' : Span) : Prop :=
  ∃ (n : Nat) (t u : Token), ts[n]? = some t ∧ us[n]? = some u ∧ t.span = s ∧ u.span = s'

/-- Tokens are alike in order if they are the same kinds and lexemes in order. -/
theorem forall₂_of_content (h : ts.map Token.content = us.map Token.content) :
    List.Forall₂ (Likeness.unplaced (SamePlace ts us)).Token ts us := by
  have hlength : ts.length = us.length := by simpa using congrArg List.length h
  refine List.forall₂_iff_get.2 ⟨hlength, fun n hts hus => ?_⟩
  have hcontent := List.getElem_of_eq h (i := n) (by simpa using hts)
  rw [List.getElem_map, List.getElem_map] at hcontent
  exact ⟨congrArg Prod.fst hcontent, congrArg Prod.snd hcontent, n, ts[n], us[n],
    List.getElem?_eq_getElem hts, List.getElem?_eq_getElem hus, rfl, rfl⟩

/-- Two outcomes are the same up to places: one program, or one cause, at the same token of either
list. -/
inductive SameOutcome (ts us : List Token) :
    Except Diagnostic Program → Except Diagnostic Program → Prop
  | program {p q : Program} : p.unplaced = q.unplaced → SameOutcome ts us (.ok p) (.ok q)
  | failure {s s' : Span} (cause : Cause) : SamePlace ts us s s' →
      SameOutcome ts us (.error (.placed cause s)) (.error (.placed cause s'))

theorem sameOutcome_of_content (hts : ts ≠ []) (h : ts.map Token.content = us.map Token.content) :
    SameOutcome ts us (ofTokens ts) (ofTokens us) := by
  have halike := forall₂_of_content h
  have hends := ends_runReader halike (span_stop halike hts) fun n => Program.inStep_read
  unfold ofTokens
  generalize runReader read ts = r at hends
  generalize runReader read us = r' at hends
  cases hends with
  | ok hR =>
    refine .program ?_
    rw [Program.unplaced, Program.unplaced, ← Stmt.unplacedAll_eq_map, ← Stmt.unplacedAll_eq_map,
      Stmt.unplacedAll_congr hR]
  | error cause hspan => exact .failure cause hspan

/-- The lexemes of a source, written out with a separator between neighbours that begins with white
space and goes on with white space and comments, are the tokens of the source again. What they parse
to is the same up to places: one program, or one failure at the same token. -/
theorem layout_changes_places_only
    (h : Token.Writes (Token.words source) text.toList) :
    (Token.ofSource text).map Token.content = (Token.ofSource source).map Token.content ∧
    SameOutcome (Token.ofSource text) (Token.ofSource source) (ofSource text)
      (ofSource source) := by
  have hcontent : (Token.ofSource text).map Token.content =
    (Token.ofSource source).map Token.content := by
    rw [Token.content_ofSource_of_writes h, Token.content_ofSource]
  exact ⟨hcontent, sameOutcome_of_content (Token.scan_ne_nil _ _) hcontent⟩

/-- A comment that holds a quote, and a string that holds a comment and is not closed. -/
theorem open_string_behind_comment :
    let source := "a=\"b # c"
    let text := "a #\"\n=\t\"b # c"
    Token.Writes (Token.words source) text.toList ∧
    (Token.ofSource text).map Token.content = (Token.ofSource source).map Token.content ∧
    SameOutcome (Token.ofSource text) (Token.ofSource source) (ofSource text)
      (ofSource source) := by
  intro source text
  have hlexemes : (Token.words source).map Token.lexeme = ["a", "=", "\"b # c"] := by decide +kernel
  obtain ⟨t, more, hwords, ht, hmore⟩ := List.map_eq_cons_iff.1 hlexemes
  obtain ⟨u, more, rfl, hu, hmore⟩ := List.map_eq_cons_iff.1 hmore
  obtain ⟨v, more, rfl, hv, hmore⟩ := List.map_eq_cons_iff.1 hmore
  obtain rfl := List.map_eq_nil_iff.1 hmore
  have hwrites : Token.Writes [t, u, v] (t.lexeme.toList ++ ' ' :: ((['#'] ++ ['"'] ++ ['\n']) ++
      (u.lexeme.toList ++ '\t' :: ([] ++ v.lexeme.toList)))) :=
    .more (by decide) (.comment (.inl rfl) (by decide) .nil) (.more (by decide) .nil (.last v))
  have htext : "a".toList ++ ' ' :: ((['#'] ++ ['"'] ++ ['\n']) ++
      ("=".toList ++ '\t' :: ([] ++ "\"b # c".toList))) = text.toList := by decide +kernel
  rw [ht, hu, hv, ← hwords, htext] at hwrites
  exact ⟨hwrites, layout_changes_places_only hwrites⟩

end Program

end SceneScript
