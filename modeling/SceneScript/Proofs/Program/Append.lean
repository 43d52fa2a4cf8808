import Mathlib.Data.List.ReduceOption
import SceneScript.Program.Read
import SceneScript.Proofs.Program.ExtendsExpr
import SceneScript.Proofs.Program.Unplaced

namespace SceneScript
open Reader

variable {i : Bool} {more rest tokens : List Token}

/-! ### Imports and values -/

namespace Import

theorem readSegments_of_head? (n : Nat)
    (h : ∀ t ∈ tokens.head?, (t.is .dot || t.is .slash) = false) :
    readSegments n tokens = .ok ("", tokens) := by
  cases n with
  | zero => rfl
  | succ n =>
    rw [readSegments, bind_of_ok _ (takeIf_of_head? h)]
    rfl

theorem readSegments_cons {separator t : Token} {segment later : String} {n : Nat}
    (hseparator : (separator.is .dot || separator.is .slash) = true) (ht : t.ident? = some segment)
    (hmore : readSegments n tokens = .ok (later, rest)) :
    readSegments (n + 1) (separator :: t :: tokens) =
      .ok (separator.kind.describe ++ segment ++ later, rest) := by
  have htake : takeIf (fun token => token.is .dot || token.is .slash) (separator :: t :: tokens) =
      .ok (some separator, t :: tokens) := takeIf_cons_of_pos hseparator _
  rw [readSegments, bind_of_ok _ htake]
  dsimp only
  rw [ident, bind_of_ok _ (expectSome_cons _ ht _), bind_of_ok _ hmore, pure_apply]

theorem readSegments_eq_ok {text : String} {n : Nat}
    (h : readSegments (n + 1) tokens = .ok (text, rest)) :
    (text = "" ∧ rest = tokens ∧ ∀ t ∈ tokens.head?, (t.is .dot || t.is .slash) = false) ∨
      ∃ separator t segment between later, tokens = separator :: t :: between ∧
        (separator.is .dot || separator.is .slash) = true ∧ t.ident? = some segment ∧
        readSegments n between = .ok (later, rest) ∧
        text = separator.kind.describe ++ segment ++ later := by
  rw [readSegments] at h
  obtain ⟨found, between, htake, hnext⟩ := exists_of_bind_eq_ok h
  rcases takeIf_eq_ok htake with ⟨separator, rfl, hseparator, rfl⟩ | ⟨rfl, rfl, hnone⟩
  · obtain ⟨segment, after, hsegment, hlast⟩ := exists_of_bind_eq_ok hnext
    obtain ⟨later, _, hlater, hdone⟩ := exists_of_bind_eq_ok hlast
    cases hdone
    obtain ⟨t, rfl, ht⟩ := ident_eq_ok hsegment
    exact .inr ⟨separator, t, segment, after, later, rfl, hseparator, ht, hlater, rfl⟩
  · cases hnext
    exact .inl ⟨rfl, rfl, hnone⟩

theorem extendsSized_readSegments : ExtendsSized i more readSegments readSegments := by
  have hseparator (t : Token) (h : t.beginsItem = true) : (t.is .dot || t.is .slash) = false := by
    rw [Token.is_of_beginsItem h (by decide), Token.is_of_beginsItem h (by decide), Bool.or_false]
  intro n
  induction n with
  | zero =>
    intro tokens text rest hn h
    cases h
    obtain rfl := List.eq_nil_of_length_eq_zero (Nat.le_zero.1 hn)
    exact ⟨List.suffix_rfl, fun ho m _ =>
      readSegments_of_head? m (ho.head?_append (.inr hseparator) (by simp))⟩
  | succ n ih =>
    intro tokens text rest hn h
    rcases readSegments_eq_ok h with ⟨rfl, rfl, hnone⟩ |
      ⟨separator, t, segment, between, later, rfl, hsign, ht, hlater, rfl⟩
    · exact ⟨List.suffix_rfl, fun ho m _ =>
        readSegments_of_head? m (ho.head?_append (.inr hseparator) hnone)⟩
    · obtain ⟨hsuffix, hmore⟩ := ih _ _ _ (by simp at hn; omega) hlater
      refine ⟨hsuffix.trans ((List.suffix_cons ..).trans (List.suffix_cons ..)), fun ho m hm => ?_⟩
      obtain ⟨m, rfl⟩ : ∃ k, m = k + 1 := ⟨m - 1, by omega⟩
      exact readSegments_cons hsign ht (hmore ho m (by omega))

theorem takes_readSource : Takes i more readSource readSource := by
  intro tokens text rest h
  rw [readSource, peek?_bind_apply] at h
  rcases tokens with _ | ⟨t, others⟩
  · exact absurd h nofun
  rw [readSource, peek?_bind_apply, List.cons_append]
  rw [List.head?_cons] at *
  cases hstring : string? t with
  | some path =>
    simp only [Option.bind_some, hstring, modify_bind_apply, List.tail_cons] at h ⊢
    cases h
    exact ⟨t, rest, rfl, List.suffix_rfl, fun _ => rfl⟩
  | none =>
    simp only [Option.bind_some, hstring] at h ⊢
    exact (takes_ident _).bind (fun _ => extendsSized_readSegments.bind fun _ => .pure _) _ _ _ h

theorem extends_read (span : Span) : Extends i more (read span) (read span) := by
  have haliasing : Extends i more (acceptWord .aliasing) (acceptWord .aliasing) :=
    extends_acceptWord (by decide)
  intro tokens declaration rest h
  rw [read, get_bind_apply] at h ⊢
  split at h
  next hnames =>
    have hmore : beginsNames (tokens ++ more) = true := by
      rcases tokens with _ | ⟨first, _ | ⟨next, others⟩⟩
      · cases hnames
      · cases hnames
      · exact hnames
    rw [if_pos hmore]
    exact ((extends_ident _).bind fun _ => (extends_moreAfterCommas (extends_ident _)).bind fun _ =>
      (extends_expectWord _ _).bind fun _ => (Extends.pure _).bind fun _ =>
      takes_readSource.extends.bind fun _ => haliasing.bind fun _ =>
      .either ((extends_ident _).map _) (.pure none) fun _ => .pure _) _ _ _ h
  next hnames =>
    rw [bind_of_ok _ (pure_apply [] tokens)] at h
    dsimp only at h
    obtain ⟨t, others, rfl, hsuffix, hmore⟩ := Takes.of_eq_ok h (takes_readSource.bind fun _ =>
      haliasing.bind fun _ => .either ((extends_ident _).map _) (.pure none) fun _ => .pure _)
    refine ⟨hsuffix.trans (List.suffix_cons ..), fun ho => ?_⟩
    have hnot : ¬beginsNames (t :: others ++ more) = true := by
      rcases others with _ | ⟨next, others⟩
      · obtain rfl := List.suffix_nil.1 hsuffix
        obtain ⟨next, hnext, hbegins⟩ := ho.outside rfl
        obtain ⟨later, hlater⟩ := List.head?_eq_some_iff.1 hnext
        have hcomma : next.is .comma = false := Token.is_of_beginsItem hbegins (by decide)
        have horigin : next.isWord .origin = false := Token.isWord_of_beginsItem hbegins (by decide)
        simp [hlater, beginsNames, hcomma, horigin]
      · exact hnames
    rw [if_neg hnot, bind_of_ok _ (pure_apply [] _)]
    exact hmore ho

end Import

theorem Triple.extends_read : Extends i more read read :=
  Expr.extends_read.bind fun _ => (extends_expect _ _).bind fun _ =>
    Expr.extends_read.bind fun _ => (extends_expect _ _).bind fun _ =>
    Expr.extends_read.bind fun _ => .pure _

theorem AssignedValue.extends_read : Extends i more read read := by
  intro tokens value rest h
  rw [read, peek?_bind_apply] at h ⊢
  rcases tokens with _ | ⟨t, others⟩
  · exact absurd h nofun
  rw [List.cons_append, List.head?_cons] at *
  cases hanchor : anchor? t with
  | some anchor =>
    simp only [Option.bind_some, hanchor, modify_bind_apply, List.tail_cons] at h ⊢
    have hjoins (t : Token) (ht : t.beginsItem = true) : (t.is .plus || t.is .comma) = false := by
      rw [Token.is_of_beginsItem ht (by decide), Token.is_of_beginsItem ht (by decide),
        Bool.or_false]
    obtain ⟨hsuffix, hmore⟩ := ((extends_takeIf (.inr hjoins)).bind fun joined =>
      .either (Triple.extends_read.map _) (.pure none) fun _ => .pure _) _ _ _ h
    exact ⟨hsuffix.trans (List.suffix_cons ..), hmore⟩
  | none =>
    simp only [Option.bind_some, hanchor] at h ⊢
    exact (Expr.extends_read.bind fun _ => (extends_accept (by decide)).bind fun _ =>
      .ite (Expr.extends_read.bind fun _ => (extends_expect _ _).bind fun _ =>
        Expr.extends_read.bind fun _ => .pure _) (.pure _)) _ _ _ h

theorem MethodArgument.extends_read : Extends i more read read :=
  (extends_acceptWord (by decide)).bind fun _ =>
    .either ((extends_ident _).map _) (Expr.extends_read.map _) fun _ =>
      (extends_accept (by decide)).bind fun _ => .pure _

namespace Stmt
variable {statement statement' : Reader Stmt}

theorem extends_readConfined (span : Span) :
    Extends i more (readConfined span) (readConfined span) :=
  (extends_ident _).bind fun _ => (extends_expect _ _).bind fun _ =>
    Expr.extends_read.bind fun _ => .pure _

theorem extends_readChildProperty (span : Span) (target : String) :
    Extends i more (readChildProperty span target) (readChildProperty span target) :=
  (extends_ident _).bind fun _ => (extends_expect _ _).bind fun _ =>
    (extends_expect _ _).bind fun _ => (extends_name _).bind fun _ =>
    (extends_expect _ _).bind fun _ => AssignedValue.extends_read.bind fun _ => .pure _

theorem extends_readMethodCall (span : Span) (target method : String) :
    Extends i more (readMethodCall span target method) (readMethodCall span target method) :=
  (extendsUpTo_untilClosed (by decide) MethodArgument.extends_read).expect fun _ _ => .pure _

theorem extends_readPrint (span : Span) : Extends i more (readPrint span) (readPrint span) :=
  (extends_expect _ _).bind fun _ => Expr.extends_read.bind fun _ =>
    (extends_expect _ _).bind fun _ => .pure _

/-- What begins with an identifier goes on with two tokens at least. -/
theorem exists_of_readNamed {span : Span} {target : String} {s : Stmt}
    (h : readNamed span target tokens = .ok (s, rest)) : ∃ t u others, tokens =
      t :: u :: others := by
  rw [readNamed, get_bind_apply] at h
  rcases tokens with _ | ⟨t, _ | ⟨u, others⟩⟩
  · have hprint : beginsPrint [] = false := rfl
    rw [hprint, Bool.and_false, if_neg Bool.false_ne_true] at h
    exact absurd h nofun
  · have hprint : beginsPrint [t] = false := rfl
    rw [hprint, Bool.and_false, if_neg Bool.false_ne_true] at h
    obtain ⟨found, between, haccept, hnext⟩ := exists_of_bind_eq_ok h
    rcases accept_eq_ok haccept with ⟨equal, heq, -, rfl⟩ | ⟨rfl, rfl, -⟩
    · cases heq
      exact absurd hnext nofun
    · obtain ⟨_, after, hdot, hlast⟩ := exists_of_bind_eq_ok hnext
      obtain ⟨dot, heq, -⟩ := expect_eq_ok hdot
      cases heq
      exact absurd hlast nofun
  · exact ⟨t, u, others, rfl⟩

theorem extends_readNamed (span : Span) (target : String) :
    Extends i more (readNamed span target) (readNamed span target) := by
  intro tokens s rest h
  obtain ⟨t, u, others, rfl⟩ := exists_of_readNamed h
  rw [readNamed, get_bind_apply] at h ⊢
  have hsame : beginsPrint (t :: u :: others ++ more) = beginsPrint (t :: u :: others) := rfl
  rw [hsame]
  split at h
  next hprint =>
    rw [if_pos hprint]
    obtain ⟨hsuffix, hmore⟩ := extends_readPrint span _ _ _ h
    exact ⟨hsuffix.trans ((List.suffix_cons ..).trans (List.suffix_cons ..)), hmore⟩
  next hprint =>
    rw [if_neg hprint]
    refine (extends_accept (by decide)).bind (fun _ => .ite ?_ ?_) _ _ _ h
    · exact Expr.extends_read.bind fun _ => .pure _
    refine (extends_expect _ _).bind fun _ => (extends_accept (by decide)).bind fun _ => .ite ?_ ?_
    · exact extends_readChildProperty span target
    refine (extends_name _).bind fun member => (extends_accept (by decide)).bind fun _ => .ite ?_ ?_
    · exact extends_readMethodCall span target member
    · exact (extends_expect _ _).bind fun _ => AssignedValue.extends_read.bind fun _ => .pure _

theorem extends_readItem (hstatement : Extends true more statement statement') :
    Extends true more (readItem statement) (readItem statement') :=
  (extends_accept_inside _).bind fun _ => .ite (.pure none) (hstatement.map some)

section
variable (hstatement : Extends true more statement statement')
include hstatement

theorem extends_readBlock : Extends i more (readBlock statement) (readBlock statement') :=
  (extends_expect _ _).bind fun _ =>
    (extendsUpTo_untilClosed (by decide) (extends_readItem hstatement)).expect fun _ _ => .pure _

theorem extends_readBranch {n m : Nat} (hnm : n ≤ m) (span : Span) :
    Extends i more (readBranch statement n span) (readBranch statement' m span) := by
  induction n generalizing m span with
  | zero => exact .of_ne_ok fun _ _ _ => fail_ne_ok _
  | succ n ih =>
    obtain ⟨m, rfl⟩ : ∃ k, m = k + 1 := ⟨m - 1, by omega⟩
    have hblock := extends_readBlock (i := i) hstatement
    refine Expr.extends_read.bind fun condition => hblock.bind fun thenBlock => ?_
    refine (extends_acceptWord (by decide)).bind fun _ => .ite ?_ (.pure _)
    refine extends_takeIf_bind (fun word => ?_) (hblock.bind fun _ => .pure _) ?_
    · exact (ih (Nat.le_of_succ_le_succ hnm) word.span).bind fun _ => .pure _
    · intro s rest h
      obtain ⟨_, _, hread, -⟩ := exists_of_bind_eq_ok h
      exact absurd hread nofun

theorem extends_readWhile (span : Span) :
    Extends i more (readWhile statement span) (readWhile statement' span) :=
  Expr.extends_read.bind fun _ => (extends_readBlock hstatement).bind fun _ => .pure _

theorem extends_readFor (span : Span) :
    Extends i more (readFor statement span) (readFor statement' span) :=
  (extends_ident _).bind fun _ => (extends_expect _ _).bind fun _ =>
    Expr.extends_read.bind fun _ => (extends_expectWord _ _).bind fun _ =>
    Expr.extends_read.bind fun _ => (extends_acceptWord (by decide)).bind fun _ =>
      .either (Expr.extends_read.map _) (.pure none) fun _ =>
        (extends_readBlock hstatement).bind fun _ => .pure _

theorem takes_readForm : Takes i more (readForm statement) (readForm statement') := by
  intro tokens s rest h
  rw [readForm, get_bind_apply] at h
  rcases tokens with _ | ⟨t, others⟩
  · cases h
  rw [readForm, get_bind_apply, List.cons_append]
  have hafter {x y : Reader Stmt} (hxy : Extends i more x y) (hread : x others = .ok (s, rest)) :
      ∃ t' others', t :: others = t' :: others' ∧ rest <:+ others' ∧
        (Open i more rest → y (others ++ more) = .ok (s, rest ++ more)) :=
    ⟨t, others, rfl, hxy _ _ _ hread⟩
  dsimp only at h ⊢
  cases hkind : t.kind with
  | ident target =>
    simp only [hkind, set_bind_apply] at h ⊢
    exact hafter (extends_readNamed _ _) h
  | keyword word =>
    simp only [hkind] at h ⊢
    cases word with
    | importing => exact hafter ((Import.extends_read _).bind fun _ => .pure _) h
    | confining => exact hafter (extends_readConfined _) h
    | conditional => exact hafter (extends_readBranch hstatement (by simp) _) h
    | whileLoop => exact hafter (extends_readWhile hstatement _) h
    | forLoop => exact hafter (extends_readFor hstatement _) h
    | _ => cases h
  | _ =>
    simp only [hkind] at h
    cases h

end

theorem extends_readWithin {n m : Nat} (hnm : n ≤ m) :
    Extends true more (readWithin n) (readWithin m) := by
  induction n generalizing m with
  | zero => exact .of_ne_ok fun _ _ _ => fail_ne_ok _
  | succ n ih =>
    obtain ⟨m, rfl⟩ : ∃ k, m = k + 1 := ⟨m - 1, by omega⟩
    exact (takes_readForm (ih (Nat.le_of_succ_le_succ hnm))).extends.bind fun _ =>
      (extends_accept_inside _).bind fun _ => .pure _

/-! ### Programs -/

section
variable {b : List Token} {s : Stmt} {item : Option Stmt}

/-- Put before the tokens of a program, a statement is the same. Where it is at its end it also
takes a semicolon that the program begins with. -/
theorem read_append (h : read tokens = .ok (s, rest)) (hb : ∃ t ∈ b.head?, t.beginsItem = true) :
    ∃ t others, tokens = t :: others ∧ rest <:+ others ∧
      (read (tokens ++ b) = .ok (s, rest ++ b) ∨
        rest = [] ∧ ∃ t b', b = t :: b' ∧ t.is .semicolon = true ∧
          read (tokens ++ b) = .ok (s, b')) := by
  obtain ⟨form, between, hform, hnext⟩ := exists_of_bind_eq_ok h
  obtain ⟨found, _, haccept, hdone⟩ := exists_of_bind_eq_ok hnext
  cases hdone
  have hdepth : tokens.length ≤ (tokens ++ b).length := by simp
  obtain ⟨t, others, rfl, hsuffix, hmore⟩ :=
    takes_readForm (i := false) (@extends_readWithin b _ _ hdepth) _ _ _ hform
  have hread := hmore fun _ => hb
  refine ⟨t, others, rfl, ?_⟩
  rcases accept_eq_ok haccept with ⟨sign, rfl, hsign, rfl⟩ | ⟨rfl, rfl, hnone⟩
  · refine ⟨(List.suffix_cons ..).trans hsuffix, .inl ?_⟩
    rw [read, readWithin, bind_of_ok _ hread, List.cons_append,
      bind_of_ok _ (accept_cons_of_is hsign _), pure_apply]
  · refine ⟨hsuffix, ?_⟩
    -- Where tokens are left over, the first of them is no semicolon, and it still comes first.
    cases hhead : (rest ++ b).head?.any (·.is .semicolon) with
    | false =>
      refine .inl ?_
      have hnosign : ∀ t ∈ (rest ++ b).head?, t.is .semicolon = false := by
        intro t ht
        rw [ht] at hhead
        exact hhead
      rw [read, readWithin, bind_of_ok _ hread, bind_of_ok _ (accept_of_head? hnosign), pure_apply]
    | true =>
      rcases rest with _ | ⟨u, rest⟩
      · rcases b with _ | ⟨sign, b'⟩
        · cases hhead
        refine .inr ⟨rfl, sign, b', rfl, hhead, ?_⟩
        rw [read, readWithin, bind_of_ok _ hread, List.nil_append,
          bind_of_ok _ (accept_cons_of_is hhead _), pure_apply]
      · rw [List.cons_append, List.head?_cons, Option.any_some, hnone u rfl] at hhead
        cases hhead

theorem readItem_cons_of_semicolon {statement : Reader Stmt} {t : Token}
    (ht : t.is .semicolon = true) (rest : List Token) :
    readItem statement (t :: rest) = .ok (none, rest) := by
  rw [readItem, bind_of_ok _ (accept_cons_of_is ht rest)]
  rfl

theorem readItem_of_head? {statement : Reader Stmt}
    (hnone : ∀ t ∈ tokens.head?, t.is .semicolon = false) (h : statement tokens = .ok (s, rest)) :
    readItem statement tokens = .ok (some s, rest) := by
  rw [readItem, bind_of_ok _ (accept_of_head? hnone), if_neg Bool.false_ne_true, map_of_ok some h]

/-- An item is a semicolon that stands alone, or a statement. -/
theorem readItem_eq_ok {statement : Reader Stmt}
    (h : readItem statement tokens = .ok (item, rest)) :
    (∃ t, tokens = t :: rest ∧ t.is .semicolon = true ∧ item = none) ∨
      ∃ s, item = some s ∧ statement tokens = .ok (s, rest) ∧
        ∀ t ∈ tokens.head?, t.is .semicolon = false := by
  obtain ⟨found, between, haccept, hnext⟩ := exists_of_bind_eq_ok h
  rcases accept_eq_ok haccept with ⟨t, rfl, ht, rfl⟩ | ⟨rfl, rfl, hnone⟩
  · cases hnext
    exact .inl ⟨t, rfl, ht, rfl⟩
  · obtain ⟨s, hread, hs⟩ := exists_of_map_eq_ok hnext
    exact .inr ⟨s, hs.symm, hread, hnone⟩

theorem beginsItem_of_readItem {t : Token} {others : List Token}
    (h : readItem read (t :: others) = .ok (item, rest)) : t.beginsItem = true := by
  rcases readItem_eq_ok h with ⟨sign, heq, hsign, -⟩ | ⟨s, -, hread, -⟩
  · cases heq
    rw [Token.beginsItem, Token.is_iff.1 hsign]
    rfl
  · obtain ⟨form, between, hform, -⟩ := exists_of_bind_eq_ok hread
    rw [readForm, get_bind_apply] at hform
    dsimp only at hform
    unfold Token.beginsItem
    cases hkind : t.kind with
    | ident target => rfl
    | keyword word =>
      simp only [hkind] at hform
      cases word with
      | importing | confining | conditional | whileLoop | forLoop => rfl
      | _ => cases hform
    | _ =>
      simp only [hkind] at hform
      cases hform

end

end Stmt

namespace Program
open Stmt
variable {a b : List Token} {items others : List (Option Stmt)}

inductive Items : List Token → List (Option Stmt) → Prop
  | nil : Items [] []
  | cons {tokens rest : List Token} {item : Option Stmt} {items : List (Option Stmt)} :
    readItem Stmt.read tokens = .ok (item, rest) → Items rest items → Items tokens (item :: items)

theorem exists_of_readItem {item : Option Stmt} (h : readItem Stmt.read tokens = .ok (item, rest)) :
    ∃ t others, tokens = t :: others ∧ rest <:+ others := by
  rcases readItem_eq_ok h with ⟨t, rfl, -⟩ | ⟨s, -, hread, -⟩
  · exact ⟨t, rest, rfl, List.suffix_rfl⟩
  · obtain ⟨form, between, hform, hnext⟩ := exists_of_bind_eq_ok hread
    obtain ⟨t, others, rfl, hsuffix, -⟩ :=
      takes_readForm (i := true) (@extends_readWithin [] _ _ (Nat.le_refl _)) _ _ _ hform
    have hafter : Extends true [] (accept .semicolon >>= fun _ => pure form)
        (accept .semicolon >>= fun _ => pure form) :=
      (extends_accept_inside _).bind fun _ => .pure form
    exact ⟨t, others, rfl, (hafter _ _ _ hnext).1.trans hsuffix⟩

theorem Items.eq_nil (h : Items [] items) : items = [] := by
  cases h with
  | nil => rfl
  | cons hitem _ =>
    obtain ⟨t, others, heq, -⟩ := exists_of_readItem hitem
    cases heq

theorem Items.beginsItem (h : Items tokens items) : ∀ t ∈ tokens.head?, t.beginsItem = true := by
  cases h with
  | nil => simp
  | cons hitem _ =>
    obtain ⟨t, others, rfl, -⟩ := exists_of_readItem hitem
    intro t' ht'
    cases ht'
    exact beginsItem_of_readItem hitem

/-- The loop over the items stops at the end only. -/
theorem repeatWhile_readItem_iff {n : Nat} (hn : tokens.length ≤ n) :
    repeatWhile (fun _ => true) (readItem Stmt.read) n tokens = .ok (items, rest) ↔
      rest = [] ∧ Items tokens items := by
  -- An item takes a token at least, so the bound is never the reason to stop.
  induction n generalizing tokens items with
  | zero =>
    obtain rfl := List.eq_nil_of_length_eq_zero (Nat.le_zero.1 hn)
    constructor
    · intro h
      cases h
      exact ⟨rfl, .nil⟩
    · rintro ⟨rfl, h⟩
      rw [h.eq_nil, repeatWhile_nil]
  | succ n ih =>
    constructor
    · intro h
      rcases repeatWhile_eq_ok h with ⟨rfl, rfl, hstop⟩ |
        ⟨t, more, item, later, between, rfl, -, hitem, hlater, rfl⟩
      · rcases rest with _ | ⟨t, more⟩
        · exact ⟨rfl, .nil⟩
        · exact absurd (hstop t rfl) Bool.noConfusion
      · obtain ⟨_, _, heq, hsuffix⟩ := exists_of_readItem hitem
        cases heq
        -- An item takes one token at least, so the bound is no less than what is left.
        have hshort := hsuffix.length_le
        obtain ⟨hend, hitems⟩ := (ih (by simp at hn; omega)).1 hlater
        exact ⟨hend, .cons hitem hitems⟩
    · rintro ⟨rfl, h⟩
      cases h with
      | nil => exact repeatWhile_nil _ _ _
      | cons hitem hrest =>
        obtain ⟨t, more, rfl, hsuffix⟩ := exists_of_readItem hitem
        have hshort := hsuffix.length_le
        exact repeatWhile_succ rfl hitem ((ih (by simp at hn; omega)).2 ⟨rfl, hrest⟩)

theorem read_eq_ok_iff {p : Program} :
    read tokens = .ok (p, rest) ↔ rest = [] ∧ ∃ items, Items tokens items ∧
      p = ⟨items.reduceOption⟩ := by
  rw [read, get_bind_apply]
  constructor
  · intro h
    obtain ⟨items, _, hitems, hdone⟩ := exists_of_bind_eq_ok h
    cases hdone
    obtain ⟨hend, hall⟩ := (repeatWhile_readItem_iff (Nat.le_refl _)).1 hitems
    exact ⟨hend, items, hall, rfl⟩
  · rintro ⟨rfl, items, hall, rfl⟩
    rw [bind_of_ok _ ((repeatWhile_readItem_iff (Nat.le_refl _)).2 ⟨rfl, hall⟩), pure_apply]

/-- Put before the tokens of a program, an item is the same, but for a semicolon after it that the
program begins with. -/
theorem readItem_append {item : Option Stmt} (h : readItem Stmt.read tokens = .ok (item, rest))
    (hb : Items b others) :
    readItem Stmt.read (tokens ++ b) = .ok (item, rest ++ b) ∨
      rest = [] ∧ ∃ t b', b = t :: b' ∧ t.is .semicolon = true ∧
        readItem Stmt.read (tokens ++ b) = .ok (item, b') := by
  rcases readItem_eq_ok h with ⟨t, rfl, ht, rfl⟩ | ⟨s, rfl, hread, hnone⟩
  · exact .inl (readItem_cons_of_semicolon ht _)
  rcases b with _ | ⟨t, b'⟩
  · rw [List.append_nil, List.append_nil]
    exact .inl h
  have hbegins : ∃ t' ∈ (t :: b').head?, t'.beginsItem = true := ⟨t, rfl, hb.beginsItem t rfl⟩
  obtain ⟨first, more, rfl, -, hsame⟩ := read_append hread hbegins
  have hnone' : ∀ t' ∈ (first :: more ++ t :: b').head?, t'.is .semicolon = false := by
    simpa using hnone
  rcases hsame with hsame | ⟨rfl, sign, after, heq, hsign, hsame⟩
  · exact .inl (readItem_of_head? hnone' hsame)
  · exact .inr ⟨rfl, sign, after, heq, hsign, readItem_of_head? hnone' hsame⟩

/-- A program behind items goes on with its own items. A semicolon that the last item takes from it
stood for no statement. -/
theorem Items.append (ha : Items a items) (hb : Items b others) :
    ∃ all, Items (a ++ b) all ∧ all.reduceOption = items.reduceOption ++ others.reduceOption := by
  induction ha with
  | nil => exact ⟨others, hb, rfl⟩
  | @cons tokens rest item items hitem hrest ih =>
    rcases readItem_append hitem hb with hsame | ⟨rfl, sign, b', rfl, hsign, hsame⟩
    · obtain ⟨all, hall, hreduce⟩ := ih
      refine ⟨item :: all, .cons hsame hall, ?_⟩
      cases item with
      | none => exact hreduce
      | some s =>
        rw [List.reduceOption_cons_of_some, List.reduceOption_cons_of_some, hreduce,
          List.cons_append]
    · obtain rfl := hrest.eq_nil
      cases hb with
      | @cons _ rest other others hother hothers =>
        rw [readItem_cons_of_semicolon hsign] at hother
        cases hother
        refine ⟨item :: others, .cons hsame hothers, ?_⟩
        cases item <;> simp

/-- Tokens of a program, without the marker of their end, and after them those of another program
make a program of the statements of both. -/
theorem ofTokens_append {stop : Token} {p q : Program} (ha : ∀ t ∈ a, t.kind.isEof = false)
    (hstop : stop.kind.isEof = true) (hp : ofTokens (a ++ [stop]) = .ok p)
    (hq : ofTokens b = .ok q) : ofTokens (a ++ b) = .ok ⟨p.statements ++ q.statements⟩ := by
  have hbody (c : List Token) : body (a ++ c) = a ++ body c :=
    List.takeWhile_append_of_pos fun t ht => by rw [ha t ht]; rfl
  have hmarker : body [stop] = [] := by simp [body, hstop]
  have hread {tokens : List Token} {r : Program} (h : ofTokens tokens = .ok r) :
      ∃ items, Items (body tokens) items ∧ r = ⟨items.reduceOption⟩ := by
    unfold ofTokens runReader at h
    split at h
    next r' rest hr =>
      cases h
      exact (read_eq_ok_iff.1 hr).2
    next => cases h
  obtain ⟨items, hitems, rfl⟩ := hread hp
  obtain ⟨others, hothers, rfl⟩ := hread hq
  rw [hbody, hmarker, List.append_nil] at hitems
  obtain ⟨all, hall, hreduce⟩ := hitems.append hothers
  unfold ofTokens runReader
  rw [hbody, read_eq_ok_iff.2 ⟨rfl, all, hall, rfl⟩, hreduce]

/-- An assignment at the end of its tokens, and a program that begins with the semicolon after
it. -/
theorem ofTokens_append_of_semicolon :
    ofTokens ([.ofKind (.ident "a"), .ofKind (.symbol .equal), .ofKind (.ident "b")] ++
      [.ofKind (.symbol .semicolon), .ofKind (.ident "c"), .ofKind (.symbol .equal),
        .ofKind (.ident "a"), .ofKind .eof]) =
      .ok ⟨[.assign .zero "a" false (.reference .zero "b" [])] ++
        [.assign .zero "c" false (.reference .zero "a" [])]⟩ := by
  have hstop : (Token.ofKind .eof).kind.isEof = true := rfl
  exact ofTokens_append (by decide) hstop rfl rfl

end Program
end SceneScript
