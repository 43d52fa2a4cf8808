import Mathlib.Data.List.Forall2
import SceneScript.Program.ReadExpr
import SceneScript.Proofs.Program.Reading

namespace SceneScript

theorem BinaryOp.level_pos (op : BinaryOp) : 0 < op.level := by cases op <;> decide

theorem BinaryOp.level_le (op : BinaryOp) : op.level ≤ 4 := by cases op <;> decide

theorem BinaryOp.symbol_ne (op : BinaryOp) : op.symbol ≠ .dot ∧ op.symbol ≠ .leftParen := by
  cases op <;> decide

theorem BinaryOp.symbol_ne_semicolon (op : BinaryOp) : op.symbol ≠ .semicolon := by
  cases op <;> decide

/-- Operators that are written alike are the same. -/
theorem BinaryOp.symbol_injective {op other : BinaryOp} (h : op.symbol = other.symbol) :
    op = other := by
  revert h
  cases op <;> cases other <;> decide

namespace Expr
open Reader
variable {value operand : Reader Expr} {tokens rest between more ts : List Token} {t : Token}
  {e : Expr} {level n : Nat}

/-! ### Where an expression ends -/

/-- What follows goes on neither with an operator up to a level nor with a member or arguments. -/
def EndsBefore (level : Nat) (rest : List Token) : Prop :=
  ∀ t ∈ rest.head?, t.is .dot = false ∧ t.is .leftParen = false ∧
    ∀ op : BinaryOp, op.level ≤ level → t.is op.symbol = false

theorem EndsBefore.mono {m : Nat} (h : EndsBefore n rest) (hm : m ≤ n) : EndsBefore m rest :=
  fun t ht => ⟨(h t ht).1, (h t ht).2.1, fun op hop => (h t ht).2.2 op (Nat.le_trans hop hm)⟩

/-- Signs that are no operators end an expression. -/
theorem endsBefore_cons_of_is {sign : Symbol} (h : t.is sign = true) (hdot : sign ≠ .dot)
    (hparen : sign ≠ .leftParen) (hop : ∀ op : BinaryOp, op.level ≤ level → sign ≠ op.symbol)
    (rest : List Token) : EndsBefore level (t :: rest) := by
  intro t' ht'
  obtain rfl : t = t' := by simpa using ht'
  simp only [Token.is_eq_of_is h, beq_eq_false_iff_ne]
  exact ⟨hdot, hparen, hop⟩

theorem endsBefore_operator {op : BinaryOp} (h : t.is op.symbol = true) (hlevel : level < op.level)
    (rest : List Token) : EndsBefore level (t :: rest) := by
  refine endsBefore_cons_of_is h op.symbol_ne.1 op.symbol_ne.2 (fun other hother heq => ?_) rest
  rw [BinaryOp.symbol_injective heq] at hlevel
  exact absurd hother (Nat.not_le.2 hlevel)

/-! ### Operators -/

theorem acceptOperator_cons_of_is {op : BinaryOp} (h : t.is op.symbol = true) (rest : List Token) :
    acceptOperator op.level (t :: rest) = .ok (some op, rest) := by
  simp only [acceptOperator, Token.is_iff.1 h, BinaryOp.ofSymbol?_symbol]

theorem acceptOperator_of_head?
    (h : ∀ t ∈ tokens.head?, ∀ op : BinaryOp, op.level = level → t.is op.symbol = false) :
    acceptOperator level tokens = .ok (none, tokens) := by
  unfold acceptOperator
  split
  next t more =>
    split
    next sign hkind =>
      split
      next op hop =>
        obtain ⟨hlevel, rfl⟩ := BinaryOp.eq_some_of_ofSymbol? hop
        have hno := h t rfl op hlevel
        rw [Token.is_iff.2 hkind] at hno
        cases hno
      next => rfl
    next => rfl
  next => rfl

/-- An operator of the level is taken, or the next token is none. -/
theorem acceptOperator_eq_ok {found : Option BinaryOp}
    (h : acceptOperator level tokens = .ok (found, rest)) :
    (∃ t op, tokens = t :: rest ∧ found = some op ∧ op.level = level ∧ t.is op.symbol = true) ∨
      (found = none ∧ rest = tokens ∧
        ∀ t ∈ tokens.head?, ∀ op : BinaryOp, op.level = level → t.is op.symbol = false) := by
  by_cases hop : ∃ t ∈ tokens.head?, ∃ op : BinaryOp, op.level = level ∧ t.is op.symbol = true
  · obtain ⟨t, ht, op, rfl, his⟩ := hop
    obtain ⟨more, rfl⟩ := List.head?_eq_some_iff.1 ht
    rw [acceptOperator_cons_of_is his] at h
    cases h
    exact .inl ⟨t, op, rfl, rfl, rfl, his⟩
  · have hnone : ∀ t ∈ tokens.head?, ∀ op : BinaryOp, op.level = level → t.is op.symbol = false :=
      fun t ht op hlevel => Bool.eq_false_iff.2 fun his => hop ⟨t, ht, op, hlevel, his⟩
    rw [acceptOperator_of_head? hnone] at h
    cases h
    exact .inr ⟨rfl, rfl, hnone⟩

theorem joinOperands_of_head? (operand : Reader Expr) (n : Nat) (left : Expr)
    (h : ∀ t ∈ tokens.head?, ∀ op : BinaryOp, op.level = level → t.is op.symbol = false) :
    joinOperands level operand n left tokens = .ok (left, tokens) := by
  cases n with
  | zero => rfl
  | succ n =>
    rw [joinOperands, bind_of_ok _ (acceptOperator_of_head? h)]
    rfl

theorem joinOperands_of_endsBefore (operand : Reader Expr) (n : Nat) (left : Expr)
    (h : EndsBefore level rest) : joinOperands level operand n left rest = .ok (left, rest) :=
  joinOperands_of_head? operand n left fun t ht op hop => (h t ht).2.2 op (Nat.le_of_eq hop)

theorem joinOperands_succ {op : BinaryOp} {right : Expr} (n : Nat) (left : Expr)
    (h : t.is op.symbol = true) (hright : operand more = .ok (right, rest)) :
    joinOperands op.level operand (n + 1) left (t :: more) =
      joinOperands op.level operand n (left.operation op right) rest := by
  rw [joinOperands, bind_of_ok _ (acceptOperator_cons_of_is h more)]
  dsimp only
  rw [bind_of_ok _ hright]

/-- What is read at a level is read at the next one too, and goes on with operators of that
level. -/
theorem readLevel_succ (h : readLevel value level tokens = .ok (e, rest)) :
    readLevel value (level + 1) tokens =
      joinOperands (level + 1) (readLevel value level) rest.length e rest := by
  rw [readLevel, bind_of_ok _ h, get_bind_apply]

/-! ### Members, indices and children -/

theorem readMembers_of_head? (n : Nat) (h : ∀ t ∈ tokens.head?, t.is .dot = false) :
    readMembers n tokens = .ok ([], tokens) := by
  cases n with
  | zero => rfl
  | succ n =>
    rw [readMembers, bind_of_ok _ (accept_of_head? h)]
    rfl

theorem readMembers_cons {dot : Token} {member : String} {members : List String}
    (hdot : dot.is .dot = true) (ht : t.name? = some member)
    (hmore : readMembers n more = .ok (members, rest)) :
    readMembers (n + 1) (dot :: t :: more) = .ok (member :: members, rest) := by
  rw [readMembers, bind_of_ok _ (accept_cons_of_is hdot _), if_pos rfl, name,
    bind_of_ok _ (expectSome_cons _ ht _), bind_of_ok _ hmore, pure_apply]

theorem readMembers_eq_ok {members : List String}
    (h : readMembers (n + 1) tokens = .ok (members, rest)) :
    (members = [] ∧ rest = tokens ∧ ∀ t ∈ tokens.head?, t.is .dot = false) ∨
      ∃ dot t member between later, tokens = dot :: t :: between ∧ dot.is .dot = true ∧
        t.name? = some member ∧ readMembers n between = .ok (later, rest) ∧
        members = member :: later := by
  rw [readMembers] at h
  obtain ⟨found, between, haccept, hnext⟩ := exists_of_bind_eq_ok h
  rcases accept_eq_ok haccept with ⟨dot, rfl, hdot, rfl⟩ | ⟨rfl, rfl, hnone⟩
  · obtain ⟨member, after, hname, hlast⟩ := exists_of_bind_eq_ok hnext
    obtain ⟨later, _, hlater, hdone⟩ := exists_of_bind_eq_ok hlast
    cases hdone
    obtain ⟨t, rfl, ht⟩ := name_eq_ok hname
    exact .inr ⟨dot, t, member, after, later, rfl, hdot, ht, hlater, rfl⟩
  · cases hnext
    exact .inl ⟨rfl, rfl, hnone⟩

/-- An index is the next token. -/
theorem readIndex_eq_ok {index : Nat} (h : readIndex tokens = .ok (index, rest)) :
    ∃ t value, tokens = t :: rest ∧ number? t = some value ∧ index? value = some index := by
  rw [readIndex, peek?_bind_apply] at h
  rcases tokens with _ | ⟨t, others⟩
  · cases h
  cases hnumber : number? t with
  | none =>
    simp only [List.head?_cons, Option.bind_some, hnumber] at h
    cases h
  | some value =>
    simp only [List.head?_cons, Option.bind_some, hnumber] at h
    rw [bind_of_ok _ (pure_apply value _)] at h
    cases hindex : index? value with
    | none =>
      simp only [hindex] at h
      cases h
    | some index =>
      simp only [hindex, modify_bind_apply, pure_apply] at h
      cases h
      exact ⟨t, value, rfl, hnumber, hindex⟩

theorem readIndex_cons {value : Float} {index : Nat} (ht : number? t = some value)
    (hindex : index? value = some index) (rest : List Token) :
    readIndex (t :: rest) = .ok (index, rest) := by
  rw [readIndex, peek?_bind_apply]
  simp only [List.head?_cons, Option.bind_some, ht]
  rw [bind_of_ok _ (pure_apply value _)]
  simp only [hindex, modify_bind_apply, pure_apply, List.tail_cons]

theorem readChildren_of_head? (n : Nat) (h : ∀ t ∈ tokens.head?, t.is .rightBracket = true) :
    readChildren n tokens = .ok ([], tokens) := by
  cases n with
  | zero => rfl
  | succ n =>
    have hall : tokens.head?.all (·.is .rightBracket) = true := by
      cases tokens with
      | nil => rfl
      | cons t others => exact h t rfl
    rw [readChildren, peek?_bind_apply, if_pos hall, pure_apply]

theorem readChildren_cons {t : Token} {child : String} (n : Nat) (ht : t.ident? = some child)
    (rest : List Token) : readChildren (n + 1) (t :: rest) =
      (accept .comma >>= fun found =>
        if found then return child :: (← readChildren n) else return [child]) rest := by
  have hsign : ¬(t :: rest).head?.all (·.is .rightBracket) = true := by
    simp [Token.is, Token.ident?_eq_some_iff.1 ht]
  rw [readChildren, peek?_bind_apply, if_neg hsign, ident, bind_of_ok _ (expectSome_cons _ ht rest)]

/-- The names are at their end, or one of them is taken, and others after a comma. -/
theorem readChildren_eq_ok {children : List String}
    (h : readChildren (n + 1) tokens = .ok (children, rest)) :
    (children = [] ∧ rest = tokens ∧ ∀ t ∈ tokens.head?, t.is .rightBracket = true) ∨
      (∃ t child, tokens = t :: rest ∧ t.ident? = some child ∧ children = [child] ∧
        ∀ t ∈ rest.head?, t.is .comma = false) ∨
      ∃ t child comma between later, tokens = t :: comma :: between ∧ t.ident? = some child ∧
        comma.is .comma = true ∧ readChildren n between = .ok (later, rest) ∧
        children = child :: later := by
  rw [readChildren, peek?_bind_apply] at h
  split at h
  next hclosing =>
    cases h
    refine .inl ⟨rfl, rfl, fun t ht => ?_⟩
    rw [ht] at hclosing
    exact hclosing
  next =>
    obtain ⟨child, between, hchild, hnext⟩ := exists_of_bind_eq_ok h
    obtain ⟨found, after, haccept, hlast⟩ := exists_of_bind_eq_ok hnext
    obtain ⟨t, rfl, ht⟩ := ident_eq_ok hchild
    rcases accept_eq_ok haccept with ⟨comma, rfl, hcomma, rfl⟩ | ⟨rfl, rfl, hnone⟩
    · obtain ⟨later, _, hlater, hdone⟩ := exists_of_bind_eq_ok hlast
      cases hdone
      exact .inr (.inr ⟨t, child, comma, after, later, rfl, ht, hcomma, hlater, rfl⟩)
    · cases hlast
      exact .inr (.inl ⟨t, child, rfl, ht, rfl, hnone⟩)

/-! ### Minus signs and primaries -/

theorem readUnary_of_head? (h : ∀ t ∈ tokens.head?, t.is .minus = false) :
    readUnary value tokens = readPrimary value tokens := by
  have hsigns : tokens.takeWhile (·.is .minus) = [] := by
    cases tokens with
    | nil => rfl
    | cons t rest => simp [h t rfl]
  rw [readUnary, get_bind_apply, hsigns]
  exact congrFun (bind_pure (readPrimary value)) tokens

theorem readUnary_cons_of_minus (h : t.is .minus = true)
    (hmore : readUnary value more = .ok (e, rest)) :
    readUnary value (t :: more) = .ok (.negation t.span e, rest) := by
  rw [readUnary, get_bind_apply, set_bind_apply] at hmore ⊢
  obtain ⟨operand, between, hread, hdone⟩ := exists_of_bind_eq_ok hmore
  cases hdone
  simp only [List.takeWhile_cons, h, if_true, List.length_cons, List.drop_succ_cons]
  rw [bind_of_ok _ hread]
  rfl

/-- A minus sign in front, or a primary. -/
theorem readUnary_cases (h : readUnary value tokens = .ok (e, rest)) :
    (∃ t more inner, tokens = t :: more ∧ t.is .minus = true ∧ e = .negation t.span inner ∧
      readUnary value more = .ok (inner, rest)) ∨
      (readPrimary value tokens = .ok (e, rest) ∧ ∀ t ∈ tokens.head?, t.is .minus = false) := by
  by_cases hhead : ∀ t ∈ tokens.head?, t.is .minus = false
  · rw [readUnary_of_head? hhead] at h
    exact .inr ⟨h, hhead⟩
  · rcases tokens with _ | ⟨t, more⟩
    · exact absurd (by simp) hhead
    have hminus : t.is .minus = true := by simpa using hhead
    rw [readUnary, get_bind_apply, set_bind_apply] at h
    simp only [List.takeWhile_cons, hminus, if_true, List.length_cons, List.drop_succ_cons] at h
    obtain ⟨operand, between, hread, hdone⟩ := exists_of_bind_eq_ok h
    cases hdone
    refine .inl ⟨t, more, _, rfl, hminus, rfl, ?_⟩
    rw [readUnary, get_bind_apply, set_bind_apply, bind_of_ok _ hread]
    rfl

/-- What a level reads begins with what a primary or a minus sign begins with. -/
theorem exists_readUnary_of_readLevel (h : readLevel value level tokens = .ok (e, rest)) :
    ∃ first between, readUnary value tokens = .ok (first, between) := by
  induction level generalizing e rest with
  | zero => exact ⟨e, rest, h⟩
  | succ level ih =>
    rw [readLevel] at h
    obtain ⟨first, between, hfirst, -⟩ := exists_of_bind_eq_ok h
    exact ih hfirst

/-- The only signs that an expression begins with are an opening parenthesis and a minus. -/
theorem sign_of_readWithin {sign : Symbol} (ht : t.is sign = true)
    (h : readWithin n (t :: more) = .ok (e, rest)) : sign = .leftParen ∨ sign = .minus := by
  cases n with
  | zero => cases h
  | succ n =>
    obtain ⟨first, between, hfirst⟩ := exists_readUnary_of_readLevel h
    rcases readUnary_cases hfirst with ⟨t', more', -, heq, hminus, -, -⟩ | ⟨hprimary, -⟩
    · cases heq
      rw [Token.is_eq_of_is ht] at hminus
      exact .inr (beq_iff_eq.1 hminus)
    · rw [readPrimary, get_bind_apply] at hprimary
      simp only [Token.is_iff.1 ht] at hprimary
      cases sign with
      | leftParen => exact .inl rfl
      | _ => cases hprimary

end Expr

/-! ### Lists with commas -/

namespace Reader
variable {α : Type} {item : Reader α} {ends : List Token → Prop} {pieces : List (List Token)}
  {as : List α} {ts rest : List Token}

/-- A reader comes from a piece to a value, and stops after the piece, before what ends it. -/
def Reads (ends : List Token → Prop) (item : Reader α) (piece : List Token) (a : α) : Prop :=
  ∀ rest, ends rest → item (piece ++ rest) = .ok (a, rest)

inductive Separated : List (List Token) → List Token → Prop
  | nil : Separated [] []
  | single (piece : List Token) : Separated [piece] piece
  | cons {comma : Token} {next : List Token} {pieces : List (List Token)} {ts : List Token}
    (piece : List Token) : comma.is .comma = true → Separated (next :: pieces) ts →
      Separated (piece :: next :: pieces) (piece ++ comma :: ts)

/-- The first of several pieces is read, and the others after their commas. -/
theorem exists_first_of_separated {piece : List Token} {a : α}
    (hsep : Separated (piece :: pieces) ts)
    (hreads : List.Forall₂ (Reads ends item) (piece :: pieces) (a :: as))
    (hcomma : ∀ t rest, t.is .comma = true → ends (t :: rest)) (hends : ends rest)
    (hrest : ∀ t ∈ rest.head?, t.is .comma = false) :
    ∃ between, item (ts ++ rest) = .ok (a, between) ∧ between.length ≤ (ts ++ rest).length ∧
      ∀ n, between.length ≤ n → afterCommas item n between = .ok (as, rest) := by
  induction as generalizing a piece pieces ts with
  | nil =>
    obtain ⟨hfirst, hmore⟩ := List.forall₂_cons.1 hreads
    cases hmore
    cases hsep
    exact ⟨rest, hfirst rest hends, by simp, fun n _ => afterCommas_of_head? item n hrest⟩
  | cons b bs ih =>
    obtain ⟨hfirst, hmore⟩ := List.forall₂_cons.1 hreads
    cases hsep with
    | single => cases hmore
    | @cons comma next pieces ts _ hc hsep =>
      obtain ⟨between, hitem, hlength, hafter⟩ := ih hsep hmore
      refine ⟨comma :: (ts ++ rest), ?_, by simp, fun n hn => ?_⟩
      · rw [List.append_assoc]
        exact hfirst _ (hcomma comma _ hc)
      · obtain ⟨n, rfl⟩ : ∃ k, n = k + 1 := ⟨n - 1, by simp at hn; omega⟩
        have hn' : between.length ≤ n := Nat.le_trans hlength (by simpa using hn)
        exact afterCommas_succ hc hitem (hafter n hn')

end Reader

namespace Expr
open Reader
variable {value : Reader Expr} {rest ts : List Token} {closing : Token}
  {pieces : List (List Token)} {args : List Expr}

theorem endsBefore_comma {t : Token} (h : t.is .comma = true) (level : Nat) (rest : List Token) :
    EndsBefore level (t :: rest) :=
  endsBefore_cons_of_is h (by decide) (by decide) (fun op _ => by cases op <;> decide) rest

theorem endsBefore_rightParen {t : Token} (h : t.is .rightParen = true) (level : Nat)
    (rest : List Token) : EndsBefore level (t :: rest) :=
  endsBefore_cons_of_is h (by decide) (by decide) (fun op _ => by cases op <;> decide) rest

/-- Arguments are read up to their closing parenthesis, if no argument begins with one. -/
theorem readArguments_of_separated (hsep : Separated pieces ts)
    (hreads : List.Forall₂ (Reads (EndsBefore 4) value) pieces args)
    (hclosing : closing.is .rightParen = true)
    (hbegins : ∀ t more e after, value (t :: more) = .ok (e, after) → t.is .rightParen = false)
    (rest : List Token) : readArguments value (ts ++ closing :: rest) = .ok (args, rest) := by
  rw [readArguments, nextIs_bind_apply]
  rcases args with _ | ⟨first, more⟩
  · cases hreads
    cases hsep
    simp only [List.nil_append, List.head?_cons, Option.any_some, hclosing, if_true]
    rw [bind_of_ok _ (pure_apply [] _), bind_of_ok _ (expect_cons_of_is _ hclosing rest)]
    rfl
  · rcases pieces with _ | ⟨piece, pieces⟩
    · cases hreads
    obtain ⟨between, hitem, -, hafter⟩ := exists_first_of_separated hsep hreads
      (fun t rest ht => endsBefore_comma ht 4 rest) (endsBefore_rightParen hclosing 4 rest)
      (by simp [Token.is_eq_of_is hclosing])
    have hhead : (ts ++ closing :: rest).head?.any (·.is .rightParen) = false := by
      rcases htokens : ts ++ closing :: rest with _ | ⟨t, others⟩
      · rfl
      · rw [htokens] at hitem
        exact hbegins _ _ _ _ hitem
    have hmore : moreAfterCommas value between = .ok (more, closing :: rest) := by
      rw [moreAfterCommas, get_bind_apply]
      exact hafter _ (Nat.le_refl _)
    rw [hhead, if_neg Bool.false_ne_true, bind_of_ok _ hitem, bind_of_ok _ hmore,
      bind_of_ok _ (pure_apply _ _)]
    dsimp only
    rw [bind_of_ok _ (expect_cons_of_is _ hclosing rest), pure_apply]

/-! ### Tokens that are read as an expression -/

/-- The tokens are read as an expression at a level, whatever follows that does not go on with it.
An operator of the level itself may follow: the expression is then its left operand. -/
def ReadsAs : Nat → List Token → Expr → Prop
  | 0, ts, e => ∀ depth, ts.length ≤ depth → ∀ rest, EndsBefore 0 rest →
    readUnary (readWithin depth) (ts ++ rest) = .ok (e, rest)
  | level + 1, ts, e => ∀ depth, ts.length ≤ depth → ∀ rest, EndsBefore level rest →
    ∃ fuel, rest.length ≤ fuel ∧ readLevel (readWithin depth) (level + 1) (ts ++ rest) =
      joinOperands (level + 1) (readLevel (readWithin depth) level) fuel e rest

namespace ReadsAs
variable {e left right : Expr} {ls rs : List Token} {opening sign : Token} {n depth : Nat}

theorem readLevel (h : ReadsAs n ts e) (hdepth : ts.length ≤ depth) (hends : EndsBefore n rest) :
    Expr.readLevel (readWithin depth) n (ts ++ rest) = .ok (e, rest) := by
  cases n with
  | zero => exact h depth hdepth rest hends
  | succ n =>
    obtain ⟨fuel, -, hread⟩ := h depth hdepth rest (hends.mono (Nat.le_succ n))
    rw [hread, joinOperands_of_endsBefore _ _ _ hends]

theorem readWithin (h : ReadsAs 4 ts e) (hdepth : ts.length < depth) (hends : EndsBefore 4 rest) :
    Expr.readWithin depth (ts ++ rest) = .ok (e, rest) := by
  cases depth with
  | zero => exact absurd hdepth (Nat.not_lt_zero _)
  | succ depth => exact h.readLevel (Nat.le_of_lt_succ hdepth) hends

theorem read (h : ReadsAs 4 ts e) (hends : EndsBefore 4 rest) :
    Expr.read (ts ++ rest) = .ok (e, rest) :=
  h.readWithin (Nat.lt_succ_of_le (by simp)) hends

theorem succ (h : ReadsAs n ts e) : ReadsAs (n + 1) ts e := by
  intro depth hdepth rest hends
  exact ⟨rest.length, Nat.le_refl _, readLevel_succ (h.readLevel hdepth hends)⟩

theorem mono {m : Nat} (h : ReadsAs n ts e) (hm : n ≤ m) : ReadsAs m ts e := by
  induction hm with
  | refl => exact h
  | step _ ih => exact ih.succ

/-- What a primary reads is read at every level. -/
theorem of_readPrimary (hhead : ∀ rest, ∀ t ∈ (ts ++ rest).head?, t.is .minus = false)
    (h : ∀ depth, ts.length ≤ depth → ∀ rest, EndsBefore 0 rest →
      readPrimary (Expr.readWithin depth) (ts ++ rest) = .ok (e, rest)) : ReadsAs n ts e := by
  refine mono (n := 0) (fun depth hdepth rest hends => ?_) (Nat.zero_le n)
  rw [readUnary_of_head? (hhead rest)]
  exact h depth hdepth rest hends

theorem negation (h : ReadsAs 0 ts e) (hsign : sign.is .minus = true) :
    ReadsAs n (sign :: ts) (.negation sign.span e) := by
  refine mono (n := 0) (fun depth hdepth rest hends => ?_) (Nat.zero_le n)
  exact readUnary_cons_of_minus hsign (h depth (Nat.le_of_succ_le hdepth) rest hends)

/-- Both operands are read at their levels; the left one may end in operators of its own level. -/
theorem operation {op : BinaryOp} (hl : ReadsAs op.level ls left) (hsign : sign.is op.symbol = true)
    (hr : ReadsAs (op.level - 1) rs right) :
    ReadsAs op.level (ls ++ sign :: rs) (left.operation op right) := by
  obtain ⟨k, hk⟩ : ∃ k, op.level = k + 1 :=
    ⟨op.level - 1, (Nat.succ_pred_eq_of_pos op.level_pos).symm⟩
  rw [hk] at hl hr ⊢
  intro depth hdepth rest hends
  have hls : ls.length ≤ depth := by simp at hdepth; omega
  have hrs : rs.length ≤ depth := by simp at hdepth; omega
  have hop : EndsBefore k (sign :: (rs ++ rest)) :=
    endsBefore_operator hsign (hk ▸ Nat.lt_succ_self k) _
  obtain ⟨fuel, hfuel, hleft⟩ := hl depth hls _ hop
  obtain ⟨fuel, rfl⟩ : ∃ f, fuel = f + 1 := ⟨fuel - 1, by simp at hfuel; omega⟩
  have hright : Expr.readLevel (Expr.readWithin depth) k (rs ++ rest) = .ok (right, rest) :=
    hr.readLevel hrs hends
  refine ⟨fuel, by simp at hfuel; omega, ?_⟩
  rw [List.append_assoc, List.cons_append, hleft, ← hk, joinOperands_succ fuel left hsign hright]

theorem paren (h : ReadsAs 4 ts e) (hopening : opening.is .leftParen = true)
    (hclosing : closing.is .rightParen = true) : ReadsAs n (opening :: (ts ++ [closing])) e := by
  refine of_readPrimary (fun rest => by simp [Token.is_eq_of_is hopening])
    fun depth hdepth rest _ => ?_
  have hdepth : ts.length < depth := by simp at hdepth; omega
  have hinner := h.readWithin hdepth (endsBefore_rightParen hclosing 4 rest)
  rw [List.cons_append, readPrimary, get_bind_apply]
  simp only [Token.is_iff.1 hopening, set_bind_apply, List.append_assoc, List.singleton_append]
  rw [bind_of_ok _ hinner, bind_of_ok _ (expect_cons_of_is _ hclosing rest), pure_apply]

end ReadsAs
end Expr
end SceneScript
