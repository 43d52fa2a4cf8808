import SceneScript.Proofs.Program.Extends

namespace SceneScript
open Reader

/-- A closing sign is neither a name nor what follows one at the start of an entry. -/
theorem Token.signs_of_closes {t : Token} (h : t.closes = true) :
    t.name? = none ∧ t.is .equal = false ∧ t.is .comma = false := by
  obtain ⟨sign, hsign, his⟩ := List.any_eq_true.1 h
  simp only [closingSigns, List.mem_cons, List.not_mem_nil, or_false] at hsign
  rw [Token.name?, Token.is_iff.1 his, Token.is_eq_of_is his, Token.is_eq_of_is his]
  rcases hsign with rfl | rfl | rfl <;> exact ⟨rfl, rfl, rfl⟩

namespace Expr
variable {i : Bool} {more rest tokens : List Token} {n m : Nat}

/-! ### Property blocks -/

/-- What a list of names is followed by does not matter behind a closing sign. -/
theorem entryNames?_append (h : ∃ t ∈ tokens, t.closes = true) (more : List Token) :
    entryNames? (tokens ++ more) = entryNames? tokens := by
  induction tokens using entryNames?.induct with
  | case1 first next rest name hname hequal =>
    simp only [List.cons_append, entryNames?, hname, hequal, if_true]
  | case2 first next rest name hname hequal hcomma ih =>
    simp only [List.cons_append, entryNames?, hname, hcomma, if_true]
    rw [if_neg hequal, if_neg hequal, ih ?_]
    obtain ⟨t, ht, hcloses⟩ := h
    obtain ⟨hnone, -, hnocomma⟩ := Token.signs_of_closes hcloses
    rcases List.mem_cons.1 ht with rfl | ht
    · rw [hname] at hnone
      cases hnone
    rcases List.mem_cons.1 ht with rfl | ht
    · rw [hcomma] at hnocomma
      cases hnocomma
    exact ⟨t, ht, hcloses⟩
  | case3 first next rest name hname hequal hcomma =>
    simp only [List.cons_append, entryNames?, hname]
    rw [if_neg hequal, if_neg hcomma, if_neg hequal, if_neg hcomma]
  | case4 first next rest hname => simp only [List.cons_append, entryNames?, hname]
  | case5 tokens hshort =>
    obtain ⟨t, ht, hcloses⟩ := h
    rcases tokens with _ | ⟨first, _ | ⟨next, others⟩⟩
    · cases ht
    · obtain rfl := List.mem_singleton.1 ht
      cases more with
      | nil => rfl
      | cons next more =>
        simp only [List.singleton_append, entryNames?, (Token.signs_of_closes hcloses).1]
    · exact absurd rfl (hshort first next others)

theorem beginsEntry_append (accepted : List String) (h : ∃ t ∈ tokens, t.closes = true)
    (more : List Token) : beginsEntry accepted (tokens ++ more) = beginsEntry accepted tokens := by
  unfold beginsEntry
  rw [entryNames?_append h more]

theorem extends_pairEntry (span : Option Span) (keys : List String) (values : List Expr) :
    Extends i more (pairEntry span keys values) (pairEntry span keys values) := by
  refine .ite (.pure _) ?_
  split
  · exact .pure _
  · exact .of_ne_ok nofun

section
variable {value value' : Reader Expr} (hvalue : Extends false more value value')

include hvalue

theorem extendsSized_moreValues (accepted : List String) :
    ExtendsSized true more (moreValues accepted value) (moreValues accepted value') := by
  intro n
  induction n with
  | zero =>
    intro tokens es rest hn h
    cases h
    obtain rfl := List.eq_nil_of_length_eq_zero (Nat.le_zero.1 hn)
    exact ⟨List.suffix_rfl, fun ⟨t, ht, _⟩ => nomatch ht⟩
  | succ n ih =>
    intro tokens es rest hn h
    rw [moreValues, get_bind_apply] at h
    rcases tokens with _ | ⟨comma, others⟩
    · cases h
      exact ⟨List.suffix_rfl, fun ⟨t, ht, _⟩ => nomatch ht⟩
    dsimp only at h
    split at h
    next hgoes =>
      rw [set_bind_apply] at h
      obtain ⟨e, between, hread, hnext⟩ := exists_of_bind_eq_ok h
      obtain ⟨later, after, hlater, hdone⟩ := exists_of_bind_eq_ok hnext
      cases hdone
      obtain ⟨hfirst, hmore⟩ := hvalue _ _ _ hread
      have hshort := hfirst.length_le
      obtain ⟨hsecond, hrest⟩ := ih _ _ _ (by simp at hn; omega) hlater
      refine ⟨(hsecond.trans hfirst).trans (List.suffix_cons ..), fun ho m hm => ?_⟩
      obtain ⟨m, rfl⟩ : ∃ k, m = k + 1 := ⟨m - 1, by omega⟩
      have hothers := ho.of_suffix (hsecond.trans hfirst)
      rw [moreValues, get_bind_apply, List.cons_append]
      dsimp only
      rw [beginsEntry_append accepted hothers, if_pos hgoes, set_bind_apply,
        bind_of_ok _ (hmore (ho.of_suffix hsecond).outside),
        bind_of_ok _ (hrest ho m (by omega)), pure_apply]
    next hstops =>
      cases h
      refine ⟨List.suffix_rfl, fun ho m hm => ?_⟩
      obtain ⟨m, rfl⟩ : ∃ k, m = k + 1 := ⟨m - 1, by omega⟩
      -- The loop stops at an entry or at what is no comma. Names of an entry end at the sign that
      -- closes the block at the latest, so more tokens behind it make no other entry.
      rw [moreValues, get_bind_apply, List.cons_append]
      dsimp only
      rw [if_neg ?_, pure_apply]
      intro hgoes
      obtain ⟨hcomma, hentry⟩ := Bool.and_eq_true_iff.1 hgoes
      refine hstops (Bool.and_eq_true_iff.2 ⟨hcomma, ?_⟩)
      obtain ⟨t, ht, hcloses⟩ := ho
      rcases List.mem_cons.1 ht with rfl | ht
      · rw [(Token.signs_of_closes hcloses).2.2] at hcomma
        cases hcomma
      · rwa [beginsEntry_append accepted ⟨t, ht, hcloses⟩] at hentry

theorem extends_readEntry (accepted : List String) :
    Extends true more (readEntry accepted value) (readEntry accepted value') := by
  refine (extends_accept (by decide)).bind fun _ => .ite (.pure _) ?_
  refine (extends_accept_inside _).bind fun _ => .ite (.pure _) ?_
  refine extends_peek?_bind fun start => (extends_name _).bind fun key => ?_
  refine (extends_moreAfterCommas (extends_name _)).bind fun keys =>
    (extends_expect _ _).bind fun _ => ?_
  refine hvalue.weaken.bind fun first => ?_
  exact (extendsSized_moreValues hvalue accepted).bind fun _ => extends_pairEntry _ _ _

theorem extends_readProperties (accepted : List String) :
    Extends i more (readProperties accepted value) (readProperties accepted value') :=
  (extends_expect _ _).bind fun _ =>
    (extendsUpTo_untilClosed (by decide) (extends_readEntry hvalue accepted)).expect
      fun _ _ => .pure _

end

/-! ### Geometry -/

theorem splitCube_append {depth : Nat} {inside after : List Token} (more : List Token)
    (h : splitCube depth tokens = some (inside, after)) :
    after <:+ tokens ∧ splitCube depth (tokens ++ more) = some (inside, after ++ more) := by
  induction tokens generalizing depth inside with
  | nil => cases h
  | cons token tokens ih =>
    rw [List.cons_append]
    unfold splitCube at h ⊢
    split at h
    next hparen =>
      rw [if_pos hparen]
      cases depth with
      | zero =>
        cases h
        exact ⟨List.suffix_cons .., rfl⟩
      | succ depth =>
        obtain ⟨⟨inner, last⟩, hsplit, heq⟩ := Option.map_eq_some_iff.1 h
        cases heq
        obtain ⟨hsuffix, happend⟩ := ih hsplit
        exact ⟨hsuffix.trans (List.suffix_cons ..), by dsimp only; rw [happend]; rfl⟩
    next hparen =>
      rw [if_neg hparen]
      obtain ⟨⟨inner, last⟩, hsplit, heq⟩ := Option.map_eq_some_iff.1 h
      cases heq
      obtain ⟨hsuffix, happend⟩ := ih hsplit
      exact ⟨hsuffix.trans (List.suffix_cons ..), by dsimp only; rw [happend]; rfl⟩

theorem extends_readCube (span : Span) : Extends i more (readCube span) (readCube span) := by
  refine (extends_expect _ _).bind fun _ => ?_
  intro tokens e rest h
  rw [get_bind_apply] at h ⊢
  cases hsplit : splitCube 0 tokens with
  | none =>
    simp only [hsplit] at h
    cases h
  | some parts =>
    obtain ⟨inside, after⟩ := parts
    simp only [hsplit, set_bind_apply, pure_apply] at h
    cases h
    obtain ⟨hsuffix, happend⟩ := splitCube_append more hsplit
    exact ⟨hsuffix, fun _ => by simp only [happend, set_bind_apply, pure_apply]⟩

theorem extends_readSignedNumber : Extends i more readSignedNumber readSignedNumber :=
  (extends_accept (by decide)).bind fun _ => (extends_expectSome _ _).bind fun _ => .pure _

theorem extends_nextIs_inside (sign : Symbol) : Extends true more (nextIs sign) (nextIs sign) := by
  intro tokens found rest h
  cases h
  refine ⟨List.suffix_rfl, fun ⟨t, ht, _⟩ => ?_⟩
  rw [nextIs, List.head?_append_of_ne_nil _ (List.ne_nil_of_mem ht)]

theorem extends_expectItemEnd (wanted : String) :
    Extends true more (expectItemEnd wanted) (expectItemEnd wanted) :=
  (extends_accept_inside _).bind fun _ => .ite (.pure _)
    ((extends_nextIs_inside _).bind fun _ => .ite (.pure _) (.of_ne_ok nofun))

theorem extends_readVertex : Extends true more readVertex readVertex :=
  extends_readSignedNumber.bind fun _ => (extends_expect _ _).bind fun _ =>
    extends_readSignedNumber.bind fun _ => (extends_expect _ _).bind fun _ =>
    extends_readSignedNumber.bind fun _ => (extends_expectItemEnd _).bind fun _ => .pure _

theorem extends_readIndex : Extends i more readIndex readIndex := by
  intro tokens index rest h
  obtain ⟨t, value, rfl, hvalue, hindex⟩ := readIndex_eq_ok h
  exact ⟨List.suffix_cons .., fun _ => readIndex_cons hvalue hindex _⟩

theorem extends_readMaterialRef : Extends i more readMaterialRef readMaterialRef :=
  (extends_ident _).bind fun _ => (extends_accept (by decide)).bind fun _ =>
    .ite ((extends_name _).bind fun _ => .pure _) (.pure _)

theorem extends_readFace : Extends true more readFace readFace := by
  refine extends_peek?_bind fun start => extends_readIndex.bind fun first =>
    (extends_moreAfterCommas extends_readIndex).bind fun more => ?_
  refine .ite (.of_ne_ok fun _ _ _ h => nomatch h) ?_
  dsimp only
  refine (extends_accept (by decide)).bind fun _ => ?_
  exact .either (extends_readMaterialRef.map _) (.pure none) fun _ =>
    (extends_expectItemEnd _).bind fun _ => .pure _

theorem extends_readMeshSection : Extends true more readMeshSection readMeshSection := by
  refine (extends_accept_inside _).bind fun _ => .ite (.pure _) ?_
  refine (extends_accept (by decide)).bind fun _ => .ite (.pure _) ?_
  refine extends_peek?_bind fun start => (extends_ident _).bind fun heading => ?_
  refine (extends_expect _ _).bind fun _ => (extends_expect _ _).bind fun _ => ?_
  dsimp only
  split
  · exact ((extendsUpTo_untilClosed (by decide) extends_readVertex).map _).expect fun _ _ => .pure _
  · exact ((extendsUpTo_untilClosed (by decide) extends_readFace).map _).expect fun _ _ => .pure _
  · exact .of_ne_ok fun _ _ _ h => nomatch h

theorem extends_readMesh (span : Span) : Extends i more (readMesh span) (readMesh span) :=
  (extends_expect _ _).bind fun _ =>
    (extendsUpTo_untilClosed (by decide) extends_readMeshSection).expect fun _ _ => .pure _

theorem extendsSized_readChildren : ExtendsSized true more readChildren readChildren := by
  intro n
  induction n with
  | zero =>
    intro tokens children rest hn h
    cases h
    obtain rfl := List.eq_nil_of_length_eq_zero (Nat.le_zero.1 hn)
    exact ⟨List.suffix_rfl, fun ⟨t, ht, _⟩ => nomatch ht⟩
  | succ n ih =>
    intro tokens children rest hn h
    rcases readChildren_eq_ok h with ⟨rfl, rfl, hclosing⟩ | ⟨t, child, rfl, ht, rfl, hnone⟩ |
      ⟨t, child, comma, between, later, rfl, ht, hcomma, hlater, rfl⟩
    · refine ⟨List.suffix_rfl, fun ⟨t, ht, _⟩ m _ => readChildren_of_head? m ?_⟩
      rwa [List.head?_append_of_ne_nil _ (List.ne_nil_of_mem ht)]
    · refine ⟨List.suffix_cons .., fun ho m hm => ?_⟩
      obtain ⟨m, rfl⟩ : ∃ k, m = k + 1 := ⟨m - 1, by omega⟩
      rw [List.cons_append, readChildren_cons m ht,
        bind_of_ok _ (accept_of_head? (ho.head?_append (.inl rfl) hnone)),
          if_neg Bool.false_ne_true,
        pure_apply]
    · obtain ⟨hsuffix, hmore⟩ := ih _ _ _ (by simp at hn; omega) hlater
      refine ⟨hsuffix.trans ((List.suffix_cons ..).trans (List.suffix_cons ..)), fun ho m hm => ?_⟩
      obtain ⟨m, rfl⟩ : ∃ k, m = k + 1 := ⟨m - 1, by omega⟩
      rw [List.cons_append, readChildren_cons m ht, List.cons_append,
        bind_of_ok _ (accept_cons_of_is hcomma _), if_pos rfl,
        bind_of_ok _ (hmore ho m (by omega)), pure_apply]

theorem extends_readGroup (span : Span) : Extends i more (readGroup span) (readGroup span) := by
  refine (extends_expect _ _).bind fun _ => extendsSized_readChildren.closed (fun children => ?_)
    fun children => ?_
  · exact (extends_expect _ _).bind fun _ => .pure _
  · exact closes_expect_bind (by decide) _ _

/-! ### Primaries and operators -/

theorem extendsSized_readMembers : ExtendsSized i more readMembers readMembers := by
  have hdot (t : Token) (h : t.beginsItem = true) : t.is .dot = false :=
    Token.is_of_beginsItem h (by decide)
  intro n
  induction n with
  | zero =>
    intro tokens members rest hn h
    cases h
    obtain rfl := List.eq_nil_of_length_eq_zero (Nat.le_zero.1 hn)
    exact ⟨List.suffix_rfl, fun ho m _ =>
      readMembers_of_head? m (ho.head?_append (.inr hdot) (by simp))⟩
  | succ n ih =>
    intro tokens members rest hn h
    rcases readMembers_eq_ok h with ⟨rfl, rfl, hnone⟩ |
      ⟨dot, t, member, between, later, rfl, hsign, ht, hlater, rfl⟩
    · exact ⟨List.suffix_rfl, fun ho m _ =>
        readMembers_of_head? m (ho.head?_append (.inr hdot) hnone)⟩
    · obtain ⟨hsuffix, hmore⟩ := ih _ _ _ (by simp at hn; omega) hlater
      refine ⟨hsuffix.trans ((List.suffix_cons ..).trans (List.suffix_cons ..)), fun ho m hm => ?_⟩
      obtain ⟨m, rfl⟩ : ∃ k, m = k + 1 := ⟨m - 1, by omega⟩
      exact readMembers_cons hsign ht (hmore ho m (by omega))

section
variable {value value' : Reader Expr} (hvalue : Extends false more value value')

include hvalue

theorem extends_readArguments : Extends i more (readArguments value) (readArguments value') := by
  have hclose (args : List Expr) : Extends i more
      (expect .rightParen "expected ')' after arguments" >>= fun _ => pure args)
      (expect .rightParen "expected ')' after arguments" >>= fun _ => pure args) :=
    (extends_expect _ _).bind fun _ => .pure _
  refine (extends_nextIs (by decide)).bind fun found => .ite ((Extends.pure []).bind hclose) ?_
  exact hvalue.weaken.bind fun _ => (extends_moreAfterCommas hvalue.weaken).bind fun _ =>
    (Extends.pure _).bind hclose

theorem extends_readReference (span : Span) (head : String) :
    Extends i more (readReference value span head) (readReference value' span head) := by
  refine extendsSized_readMembers.bind fun members => ?_
  refine (extends_takeIf (.inr fun _ h => Token.is_of_beginsItem h (by decide))).bind
    fun found => ?_
  cases found with
  | none => exact .pure _
  | some paren =>
    rcases members with _ | ⟨member, _ | ⟨second, more⟩⟩
    · exact (extends_readArguments hvalue).bind fun _ => .pure _
    · exact (extends_readArguments hvalue).bind fun _ => .pure _
    · exact .of_ne_ok nofun

theorem extends_readConversion (span : Span) (callee : String) :
    Extends i more (readConversion value span callee) (readConversion value' span callee) :=
  (extends_expect _ _).bind fun _ => (extends_readArguments hvalue).bind fun _ => .pure _

theorem extends_readModifier (span : Span) :
    Extends i more (readModifier value span) (readModifier value' span) :=
  (extends_expect _ _).bind fun _ => (extends_ident _).bind fun _ =>
    (extends_readProperties hvalue _).bind fun _ => .pure _

theorem extends_readPrimary : Extends i more (readPrimary value) (readPrimary value') := by
  intro tokens e rest h
  rw [readPrimary, get_bind_apply] at h
  rcases tokens with _ | ⟨t, others⟩
  · cases h
  rw [readPrimary, get_bind_apply, List.cons_append]
  have hafter {x y : Reader Expr} (hxy : Extends i more x y) (hread : x others = .ok (e, rest)) :
      rest <:+ t :: others ∧ (Open i more rest → y (others ++ more) = .ok (e, rest ++ more)) :=
    ⟨(hxy _ _ _ hread).1.trans (List.suffix_cons ..), (hxy _ _ _ hread).2⟩
  dsimp only at h ⊢
  cases hkind : t.kind with
  | number x =>
    simp only [hkind, set_bind_apply] at h ⊢
    exact hafter (.pure _) h
  | string text =>
    simp only [hkind, set_bind_apply] at h ⊢
    exact hafter (.pure _) h
  | ident head =>
    simp only [hkind, set_bind_apply] at h ⊢
    exact hafter (extends_readReference hvalue _ _) h
  | symbol sign =>
    simp only [hkind] at h ⊢
    cases sign with
    | leftParen =>
      simp only [set_bind_apply] at h ⊢
      exact hafter (hvalue.weaken.bind fun _ => (extends_expect _ _).bind fun _ => .pure _) h
    | _ => cases h
  | keyword word =>
    simp only [hkind] at h ⊢
    cases word with
    | cube => exact hafter (extends_readCube _) h
    | mesh => exact hafter (extends_readMesh _) h
    | material => exact hafter ((extends_readProperties hvalue _).bind fun _ => .pure _) h
    | modifier => exact hafter (extends_readModifier hvalue _) h
    | group => exact hafter (extends_readGroup _) h
    | int | float | string | bool => exact hafter (extends_readConversion hvalue _ _) h
    | _ => cases h
  | eof =>
    simp only [hkind] at h
    cases h

theorem extends_readUnary : Extends i more (readUnary value) (readUnary value') := by
  intro tokens
  induction tokens with
  | nil =>
    intro e rest h
    rw [readUnary_of_head? (by simp)] at h
    exact absurd h (fail_ne_ok _)
  | cons t others ih =>
    intro e rest h
    rcases readUnary_cases h with ⟨t', others', inner, heq, hminus, rfl, hmore⟩ | ⟨hprimary, hhead⟩
    · cases heq
      obtain ⟨hsuffix, hinner⟩ := ih _ _ hmore
      exact ⟨hsuffix.trans (List.suffix_cons ..), fun ho =>
        readUnary_cons_of_minus hminus (hinner ho)⟩
    · obtain ⟨hsuffix, hread⟩ := extends_readPrimary hvalue _ _ _ hprimary
      have hminus : ∀ t' ∈ (t :: others ++ more).head?, t'.is .minus = false := by simpa using hhead
      exact ⟨hsuffix, fun ho => by rw [readUnary_of_head? hminus, hread ho]⟩

end

theorem extendsSized_joinOperands {operand operand' : Reader Expr} (level : Nat) (left : Expr)
    (hoperand : Extends i more operand operand') :
    ExtendsSized i more (fun n => joinOperands level operand n left)
      (fun n => joinOperands level operand' n left) := by
  have hstop {tokens : List Token} (ho : Open i more tokens)
      (hnone : ∀ t ∈ tokens.head?, ∀ op : BinaryOp, op.level = level → t.is op.symbol = false)
      (m : Nat) (left : Expr) : joinOperands level operand' m left (tokens ++ more) =
        .ok (left, tokens ++ more) :=
    joinOperands_of_head? operand' m left fun t ht op hop =>
      ho.head?_append (.inr fun _ hb => Token.is_of_beginsItem hb op.symbol_ne_semicolon)
        (fun t ht => hnone t ht op hop) t ht
  -- On the bound of the first reading; the second one has a bound of its own, which only has to be
  -- large enough.
  intro n
  induction n generalizing left with
  | zero =>
    intro tokens e rest hn h
    cases h
    obtain rfl := List.eq_nil_of_length_eq_zero (Nat.le_zero.1 hn)
    exact ⟨List.suffix_rfl, fun ho m _ => hstop ho (by simp) m left⟩
  | succ n ih =>
    intro tokens e rest hn h
    dsimp only at h
    rw [joinOperands] at h
    obtain ⟨found, between, haccept, hnext⟩ := exists_of_bind_eq_ok h
    rcases acceptOperator_eq_ok haccept with ⟨t, op, rfl, rfl, rfl, hop⟩ | ⟨rfl, rfl, hnone⟩
    · obtain ⟨right, after, hright, hlast⟩ := exists_of_bind_eq_ok hnext
      obtain ⟨hfirst, hoperand'⟩ := hoperand _ _ _ hright
      have hshort := hfirst.length_le
      obtain ⟨hsecond, hmore⟩ := ih _ _ _ _ (by simp at hn; omega) hlast
      refine ⟨(hsecond.trans hfirst).trans (List.suffix_cons ..), fun ho m hm => ?_⟩
      obtain ⟨m, rfl⟩ : ∃ k, m = k + 1 := ⟨m - 1, by omega⟩
      dsimp only
      rw [List.cons_append, joinOperands_succ m left hop (hoperand' (ho.of_suffix hsecond))]
      exact hmore ho m (by omega)
    · cases hnext
      exact ⟨List.suffix_rfl, fun ho m _ => hstop ho hnone m left⟩

theorem extends_readLevel {value value' : Reader Expr} (hvalue : Extends false more value value')
    (level : Nat) : Extends i more (readLevel value level) (readLevel value' level) := by
  induction level with
  | zero => exact extends_readUnary hvalue
  | succ level ih =>
    exact ih.bind fun first => (extendsSized_joinOperands _ first ih).extends

/-- A larger bound on the depth of nesting allows for all that a smaller one does. -/
theorem extends_readWithin (hnm : n ≤ m) : Extends i more (readWithin n) (readWithin m) := by
  induction n generalizing m i with
  | zero => exact .of_ne_ok fun _ _ _ => fail_ne_ok _
  | succ n ih =>
    obtain ⟨m, rfl⟩ : ∃ k, m = k + 1 := ⟨m - 1, by omega⟩
    exact extends_readLevel (ih (Nat.le_of_succ_le_succ hnm)) 4

theorem extends_read : Extends i more read read := by
  intro tokens e rest h
  have hbound : tokens.length + 1 ≤ (tokens ++ more).length + 1 := by simp
  exact extends_readWithin hbound tokens e rest h

end Expr

end SceneScript
