import SceneScript.Proofs.Program.Levels
import SceneScript.Proofs.Program.Unplaced

namespace SceneScript

namespace Token

/-- Whether the token is a word that begins a literal of a shape, a material or a modifier. -/
def beginsLiteral (t : Token) : Bool :=
  [Keyword.cube, .mesh, .material, .modifier, .group].any (t.isWord ·)

def isConversion (t : Token) : Bool := [Keyword.int, .float, .string, .bool].any (t.isWord ·)

end Token

namespace Expr
open Reader

/-! ### The grammar -/

inductive Selection : List String → List Token → Prop
  | nil : Selection [] []
  | cons {dot t : Token} {member : String} {members : List String} {ts : List Token} :
    dot.is .dot = true → t.name? = some member → Selection members ts →
      Selection (member :: members) (dot :: t :: ts)

/-- What stands before the arguments of a call. -/
inductive Callee : Option String → String → List Token → Prop
  | plain {t : Token} {name : String} : t.ident? = some name → Callee none name [t]
  | member {t dot t' : Token} {receiver name : String} : t.ident? = some receiver →
    dot.is .dot = true → t'.name? = some name → Callee (some receiver) name [t, dot, t']
  | conversion {t : Token} : t.isConversion = true → Callee none t.lexeme [t]

/-- The tokens write the expression where operators up to a level may stand outside of
parentheses: a left operand is of the level of its operator at most, a right operand of a lower one,
and a minus sign stands before what no operator joins. -/
inductive Rendering : Nat → Expr → List Token → Prop
  | number {n : Nat} {span : Span} {x : Float} {t : Token} :
    t.kind = .number x → Rendering n (.number span x) [t]
  | string {n : Nat} {span : Span} {text : String} {t : Token} :
    t.kind = .string text → Rendering n (.string span text) [t]
  | reference {n : Nat} {span : Span} {name : String} {members : List String} {t : Token}
    {ts : List Token} : t.ident? = some name → Selection members ts →
      Rendering n (.reference span name members) (t :: ts)
  | call {n : Nat} {span : Span} {receiver : Option String} {callee : String}
    {pieces : List (Expr × List Token)} {head ts : List Token} {opening closing : Token} :
    Callee receiver callee head → opening.is .leftParen = true →
      Separated (pieces.map Prod.snd) ts → (∀ p ∈ pieces, Rendering 4 p.1 p.2) →
      closing.is .rightParen = true →
      Rendering n (.call span receiver callee (pieces.map Prod.fst))
        (head ++ opening :: (ts ++ [closing]))
  | paren {n : Nat} {e : Expr} {ts : List Token} {opening closing : Token} :
    opening.is .leftParen = true → Rendering 4 e ts → closing.is .rightParen = true →
      Rendering n e (opening :: (ts ++ [closing]))
  | negation {n : Nat} {span place : Span} {e : Expr} {ts : List Token} {sign : Token} :
    sign.is .minus = true → Rendering 0 e ts →
      Rendering n (.binary span .sub (.number place 0) e) (sign :: ts)
  | operation {n : Nat} {span : Span} {op : BinaryOp} {left right : Expr} {ls rs : List Token}
    {sign : Token} : op.level ≤ n → Rendering op.level left ls → sign.is op.symbol = true →
      Rendering (op.level - 1) right rs →
      Rendering n (.binary span op left right) (ls ++ sign :: rs)

theorem Rendering.mono {m n : Nat} {e : Expr} {ts : List Token} (h : Rendering m e ts)
    (hmn : m ≤ n) : Rendering n e ts := by
  cases h with
  | number hkind => exact .number hkind
  | string hkind => exact .string hkind
  | reference hname hsel => exact .reference hname hsel
  | call hcallee hopening hsep hargs hclosing => exact .call hcallee hopening hsep hargs hclosing
  | paren hopening hinner hclosing => exact .paren hopening hinner hclosing
  | negation hsign hinner => exact .negation hsign hinner
  | operation hop hleft hsign hright =>
    exact .operation (Nat.le_trans hop hmn) hleft hsign hright

/-! ### Renderings are read -/

section
variable {value : Reader Expr} {rest ts : List Token} {t : Token} {members : List String}
  {n depth : Nat}

theorem readMembers_of_selection (h : Selection members ts)
    (hrest : ∀ t ∈ rest.head?, t.is .dot = false) (hn : ts.length ≤ n) :
    readMembers n (ts ++ rest) = .ok (members, rest) := by
  induction h generalizing n with
  | nil => exact readMembers_of_head? n hrest
  | @cons dot t member members ts hdot hname _ ih =>
    obtain ⟨n, rfl⟩ : ∃ k, n = k + 1 := ⟨n - 1, by simp at hn; omega⟩
    exact readMembers_cons hdot hname (ih (by simp at hn; omega))

theorem readsAs_reference {name : String} (ht : t.ident? = some name) (h : Selection members ts) :
    ReadsAs n (t :: ts) (.reference t.span name members) := by
  have hkind : t.kind = .ident name := Token.ident?_eq_some_iff.1 ht
  refine .of_readPrimary (fun rest => by simp [Token.is, hkind]) fun depth _ rest hends => ?_
  have hmembers : readMembers (ts ++ rest).length (ts ++ rest) = .ok (members, rest) :=
    readMembers_of_selection h (fun t' ht' => (hends t' ht').1) (by simp)
  have hparen : takeIf (·.is .leftParen) rest = .ok (none, rest) :=
    takeIf_of_head? fun t' ht' => (hends t' ht').2.1
  rw [List.cons_append, readPrimary, get_bind_apply]
  simp only [hkind, set_bind_apply]
  rw [readReference, get_bind_apply, bind_of_ok _ hmembers, bind_of_ok _ hparen]
  rfl

end

section
variable {n : Nat} {receiver : Option String} {callee : String} {head ts : List Token}
  {opening closing : Token} {pieces : List (List Token)} {args : List Expr}

def placeOf (tokens : List Token) : Span := (tokens.head?.map Token.span).getD .zero

/-- What is called, and its arguments. -/
theorem readPrimary_of_callee {value : Reader Expr} {between rest : List Token}
    (h : Callee receiver callee head) (hopening : opening.is .leftParen = true)
    (hargs : readArguments value between = .ok (args, rest)) :
    readPrimary value (head ++ opening :: between) =
      .ok (.call (placeOf head) receiver callee args, rest) := by
  have hparen : takeIf (·.is .leftParen) (opening :: between) = .ok (some opening, between) :=
    takeIf_cons_of_pos hopening between
  have hmembers {k : Nat} {members : List String} {ts : List Token} (hsel : Selection members ts)
      (hk : ts.length ≤ k) :
      readMembers k (ts ++ opening :: between) = .ok (members, opening :: between) :=
    readMembers_of_selection hsel (by simp [Token.is_eq_of_is hopening]) hk
  cases h with
  | @plain t _ ht =>
    have hnone := hmembers (k := (opening :: between).length) .nil (Nat.zero_le _)
    rw [List.nil_append] at hnone
    rw [List.singleton_append, readPrimary, get_bind_apply]
    simp only [Token.ident?_eq_some_iff.1 ht, set_bind_apply]
    rw [readReference, get_bind_apply, bind_of_ok _ hnone, bind_of_ok _ hparen]
    dsimp only
    rw [bind_of_ok _ hargs, pure_apply]
    rfl
  | @member t dot t' _ _ ht hdot hname =>
    have hone : Selection [callee] [dot, t'] := .cons hdot hname .nil
    rw [List.cons_append, readPrimary, get_bind_apply]
    simp only [Token.ident?_eq_some_iff.1 ht, set_bind_apply]
    rw [readReference, get_bind_apply, bind_of_ok _ (hmembers hone (by simp)), bind_of_ok _ hparen]
    dsimp only
    rw [bind_of_ok _ hargs, pure_apply]
    rfl
  | @conversion t ht =>
    have hconversion : readConversion value t.span t.lexeme (opening :: between) =
        .ok (.call t.span none t.lexeme args, rest) := by
      rw [readConversion, bind_of_ok _ (expect_cons_of_is _ hopening _), bind_of_ok _ hargs,
        pure_apply]
    obtain ⟨word, hword, hkind⟩ := List.any_eq_true.1 ht
    rw [List.singleton_append, readPrimary, get_bind_apply]
    simp only [Token.isWord_iff.1 hkind]
    simp only [List.mem_cons, List.not_mem_nil, or_false] at hword
    rcases hword with rfl | rfl | rfl | rfl <;> exact hconversion

theorem Callee.not_minus (h : Callee receiver callee head) (rest : List Token) :
    ∀ t ∈ (head ++ rest).head?, t.is .minus = false := by
  cases h with
  | plain ht => simp [Token.is, Token.ident?_eq_some_iff.1 ht]
  | member ht => simp [Token.is, Token.ident?_eq_some_iff.1 ht]
  | conversion ht =>
    obtain ⟨word, -, hkind⟩ := List.any_eq_true.1 ht
    simp [Token.is, Token.isWord_iff.1 hkind]

theorem length_le_of_separated {piece : List Token} (hsep : Separated pieces ts)
    (hpiece : piece ∈ pieces) : piece.length ≤ ts.length := by
  induction hsep with
  | nil => cases hpiece
  | single other => exact Nat.le_of_eq (congrArg List.length (List.mem_singleton.1 hpiece))
  | cons other _ _ ih =>
    rcases List.mem_cons.1 hpiece with rfl | hmore
    · simp
    · have := ih hmore
      simp
      omega

/-- A depth that suffices for the whole list suffices for each of its items. -/
theorem reads_of_separated {depth : Nat} (hsep : Separated pieces ts)
    (h : List.Forall₂ (ReadsAs 4) pieces args) (hdepth : ts.length < depth) :
    List.Forall₂ (Reads (EndsBefore 4) (readWithin depth)) pieces args := by
  have hboth := (List.forall₂_and_left pieces args).2 ⟨fun piece => length_le_of_separated hsep, h⟩
  refine hboth.imp ?_
  intro piece arg harg rest hends
  exact harg.2.readWithin (Nat.lt_of_le_of_lt harg.1 hdepth) hends

theorem readsAs_number {t : Token} {x : Float} (h : t.kind = .number x) :
    ReadsAs n [t] (.number t.span x) := by
  refine .of_readPrimary (by simp [Token.is, h]) fun _ _ rest _ => ?_
  rw [List.singleton_append, readPrimary, get_bind_apply]
  simp only [h, set_bind_apply, pure_apply]

theorem readsAs_string {t : Token} {text : String} (h : t.kind = .string text) :
    ReadsAs n [t] (.string t.span text) := by
  refine .of_readPrimary (by simp [Token.is, h]) fun _ _ rest _ => ?_
  rw [List.singleton_append, readPrimary, get_bind_apply]
  simp only [h, set_bind_apply, pure_apply]

theorem readsAs_call (h : Callee receiver callee head)
    (hopening : opening.is .leftParen = true) (hsep : Separated pieces ts)
    (hargs : List.Forall₂ (ReadsAs 4) pieces args) (hclosing : closing.is .rightParen = true) :
    ReadsAs n (head ++ opening :: (ts ++ [closing]))
      (.call (placeOf head) receiver callee args) := by
  refine .of_readPrimary (fun rest => ?_) fun depth hdepth rest _ => ?_
  · rw [List.append_assoc]
    exact h.not_minus _
  -- Every argument is shorter than the call, so the depth suffices for it.
  have hshort : ts.length < depth := by simp at hdepth; omega
  have hreads := reads_of_separated hsep hargs hshort
  have hbegins : ∀ t more e after, readWithin depth (t :: more) = .ok (e, after) →
      t.is .rightParen = false := by
    intro t more e after hread
    by_contra hparen
    rcases sign_of_readWithin (by simpa using hparen) hread with hsign | hsign <;> cases hsign
  rw [List.append_assoc, List.cons_append, List.append_assoc, List.singleton_append]
  exact readPrimary_of_callee h hopening
    (readArguments_of_separated hsep hreads hclosing hbegins rest)

end

theorem Rendering.exists_readsAs {n : Nat} {e : Expr} {ts : List Token} (h : Rendering n e ts) :
    ∃ read, read.unplaced = e.unplaced ∧ ReadsAs n ts read := by
  -- One reading lemma for each form of the grammar; a level above an operand adds nothing to it.
  induction h with
  | @number n span x t hkind => exact ⟨.number t.span x, rfl, readsAs_number hkind⟩
  | @string n span text t hkind => exact ⟨.string t.span text, rfl, readsAs_string hkind⟩
  | @reference n span name members t ts hname hsel =>
    exact ⟨.reference t.span name members, rfl, readsAs_reference hname hsel⟩
  | @call n span receiver callee pieces head ts opening closing hcallee hopening hsep
    hall hclosing ih =>
    have hargs : ∃ args, unplacedAll args = unplacedAll (pieces.map Prod.fst) ∧
        List.Forall₂ (ReadsAs 4) (pieces.map Prod.snd) args := by
      clear hsep hall
      induction pieces with
      | nil => exact ⟨[], rfl, .nil⟩
      | cons piece pieces ihp =>
        obtain ⟨first, hfirst, hread⟩ := ih piece (List.mem_cons_self ..)
        obtain ⟨more, hmore, hreads⟩ := ihp fun p hp => ih p (List.mem_cons_of_mem _ hp)
        refine ⟨first :: more, ?_, .cons hread hreads⟩
        rw [List.map_cons, unplacedAll, unplacedAll, hfirst, hmore]
    obtain ⟨args, hunplaced, hreads⟩ := hargs
    refine ⟨_, ?_, readsAs_call hcallee hopening hsep hreads hclosing⟩
    rw [unplaced, unplaced, hunplaced]
  | paren hopening _ hclosing ih =>
    obtain ⟨inner, hinner, hread⟩ := ih
    exact ⟨inner, hinner, hread.paren hopening hclosing⟩
  | negation hsign _ ih =>
    obtain ⟨inner, hinner, hread⟩ := ih
    refine ⟨_, ?_, hread.negation hsign⟩
    rw [Expr.negation, unplaced, unplaced, hinner, unplaced, unplaced]
  | operation hop _ hsign _ ihl ihr =>
    obtain ⟨left, hleft, hl⟩ := ihl
    obtain ⟨right, hright, hr⟩ := ihr
    refine ⟨_, ?_, (hl.operation hsign hr).mono hop⟩
    rw [Expr.operation, unplaced, unplaced, hleft, hright]

/-! ### What is read is a rendering -/

section
variable {tokens rest : List Token} {e : Expr} {n level depth : Nat} {value : Reader Expr}

def Plain (tokens : List Token) : Prop := ∀ t ∈ tokens, t.beginsLiteral = false

theorem Plain.of_append {ts : List Token} (h : Plain (ts ++ rest)) : Plain rest :=
  fun t ht => h t (List.mem_append_right ts ht)

theorem Plain.tail {t : Token} (h : Plain (t :: rest)) : Plain rest :=
  fun t' ht' => h t' (List.mem_cons_of_mem t ht')

/-- What a reader takes off plain tokens renders what it comes to, at a level. -/
def ReadsRenderings (level : Nat) (value : Reader Expr) : Prop :=
  ∀ tokens e rest, Plain tokens → value tokens = .ok (e, rest) →
    ∃ ts, tokens = ts ++ rest ∧ Rendering level e ts

theorem selection_of_readMembers {members : List String}
    (h : readMembers n tokens = .ok (members, rest)) :
    ∃ ts, tokens = ts ++ rest ∧ Selection members ts := by
  induction n generalizing tokens members with
  | zero =>
    cases h
    exact ⟨[], rfl, .nil⟩
  | succ n ih =>
    rcases readMembers_eq_ok h with ⟨rfl, rfl, -⟩ |
      ⟨dot, t, member, between, later, rfl, hdot, ht, hlater, rfl⟩
    · exact ⟨[], rfl, .nil⟩
    · obtain ⟨ts, rfl, hsel⟩ := ih hlater
      exact ⟨dot :: t :: ts, rfl, .cons hdot ht hsel⟩

theorem separated_of_afterCommas {first : Expr} {piece between : List Token} {more : List Expr}
    (hvalue : ReadsRenderings 4 value) (hplain : Plain between) (hpiece : Rendering 4 first piece)
    (h : afterCommas value n between = .ok (more, rest)) :
    ∃ (pieces : List (Expr × List Token)) (ts : List Token), pieces.map Prod.fst = first :: more ∧
      Separated (pieces.map Prod.snd) ts ∧ piece ++ between = ts ++ rest ∧
      ∀ p ∈ pieces, Rendering 4 p.1 p.2 := by
  induction n generalizing first piece between more with
  | zero =>
    cases h
    exact ⟨[(first, piece)], piece, rfl, .single piece, rfl, by simpa using hpiece⟩
  | succ n ih =>
    rcases afterCommas_eq_ok h with ⟨rfl, rfl, -⟩ |
      ⟨comma, tokens, second, more, after, rfl, hcomma, hsecond, hmore, rfl⟩
    · exact ⟨[(first, piece)], piece, rfl, .single piece, rfl, by simpa using hpiece⟩
    · obtain ⟨piece', rfl, hpiece'⟩ := hvalue _ _ _ hplain.tail hsecond
      obtain ⟨pieces, ts, hfst, hsep, htokens, hall⟩ := ih hplain.tail.of_append hpiece' hmore
      rcases pieces with _ | ⟨next, pieces⟩
      · cases hfst
      refine ⟨(first, piece) :: next :: pieces, piece ++ comma :: ts, ?_, .cons piece hcomma hsep,
        ?_, ?_⟩
      · rw [List.map_cons, hfst]
      · rw [htokens, List.append_assoc, List.cons_append]
      · rintro p (_ | ⟨_, hp⟩)
        · exact hpiece
        · exact hall p hp

theorem separated_of_readArguments {args : List Expr} (hvalue : ReadsRenderings 4 value)
    (hplain : Plain tokens) (h : readArguments value tokens = .ok (args, rest)) :
    ∃ (pieces : List (Expr × List Token)) (ts : List Token) (closing : Token),
      pieces.map Prod.fst = args ∧ Separated (pieces.map Prod.snd) ts ∧
      tokens = ts ++ closing :: rest ∧ (∀ p ∈ pieces, Rendering 4 p.1 p.2) ∧
      closing.is .rightParen = true := by
  rw [readArguments, nextIs_bind_apply] at h
  split at h
  · rw [bind_of_ok _ (pure_apply [] tokens)] at h
    obtain ⟨_, _, hclose, hdone⟩ := exists_of_bind_eq_ok h
    cases hdone
    obtain ⟨closing, rfl, hclosing⟩ := expect_eq_ok hclose
    exact ⟨[], [], closing, rfl, .nil, rfl, by simp, hclosing⟩
  · obtain ⟨first, between, hfirst, hnext⟩ := exists_of_bind_eq_ok h
    obtain ⟨more, after, hmore, hlast⟩ := exists_of_bind_eq_ok hnext
    rw [bind_of_ok _ (pure_apply _ after)] at hlast
    obtain ⟨_, _, hclose, hdone⟩ := exists_of_bind_eq_ok hlast
    cases hdone
    obtain ⟨closing, rfl, hclosing⟩ := expect_eq_ok hclose
    obtain ⟨piece, rfl, hpiece⟩ := hvalue _ _ _ hplain hfirst
    rw [moreAfterCommas, get_bind_apply] at hmore
    obtain ⟨pieces, ts, hfst, hsep, htokens, hall⟩ :=
      separated_of_afterCommas hvalue hplain.of_append hpiece hmore
    exact ⟨pieces, ts, closing, hfst, hsep, htokens, hall, hclosing⟩

theorem rendering_of_call {receiver : Option String} {callee : String} {args : List Expr}
    {head : List Token} {opening : Token} (span : Span) (hvalue : ReadsRenderings 4 value)
    (hplain : Plain tokens) (hcallee : Callee receiver callee head)
    (hopening : opening.is .leftParen = true)
    (h : readArguments value tokens = .ok (args, rest)) :
    ∃ ts, head ++ opening :: tokens = ts ++ rest ∧
      Rendering level (.call span receiver callee args) ts := by
  obtain ⟨pieces, ts, closing, rfl, hsep, rfl, hall, hclosing⟩ :=
    separated_of_readArguments hvalue hplain h
  exact ⟨head ++ opening :: (ts ++ [closing]), by simp,
    .call hcallee hopening hsep hall hclosing⟩

theorem rendering_of_readReference {t : Token} {head : String} (hvalue : ReadsRenderings 4 value)
    (hplain : Plain tokens) (ht : t.ident? = some head) (span : Span)
    (h : readReference value span head tokens = .ok (e, rest)) :
    ∃ ts, t :: tokens = ts ++ rest ∧ Rendering level e ts := by
  rw [readReference, get_bind_apply] at h
  obtain ⟨members, between, hmembers, hnext⟩ := exists_of_bind_eq_ok h
  obtain ⟨found, after, hparen, hlast⟩ := exists_of_bind_eq_ok hnext
  clear h hnext
  obtain ⟨ts, rfl, hsel⟩ := selection_of_readMembers hmembers
  rcases takeIf_eq_ok hparen with ⟨opening, rfl, hopening, rfl⟩ | ⟨rfl, rfl, -⟩
  · have hafter : Plain after := hplain.of_append.tail
    cases hsel with
    | nil =>
      obtain ⟨args, _, hargs, hdone⟩ := exists_of_bind_eq_ok hlast
      cases hdone
      exact rendering_of_call span hvalue hafter (.plain ht) hopening hargs
    | @cons dot t' member members ts hdot hname hsel =>
      cases hsel with
      | nil =>
        obtain ⟨args, _, hargs, hdone⟩ := exists_of_bind_eq_ok hlast
        cases hdone
        exact rendering_of_call span hvalue hafter (.member ht hdot hname) hopening hargs
      | cons => cases hlast
  · cases hlast
    exact ⟨t :: ts, rfl, .reference ht hsel⟩

theorem rendering_of_readConversion {t : Token} (hvalue : ReadsRenderings 4 value)
    (hplain : Plain tokens) (ht : t.isConversion = true) (span : Span)
    (h : readConversion value span t.lexeme tokens = .ok (e, rest)) :
    ∃ ts, t :: tokens = ts ++ rest ∧ Rendering level e ts := by
  obtain ⟨_, between, hopen, hnext⟩ := exists_of_bind_eq_ok h
  obtain ⟨args, _, hargs, hdone⟩ := exists_of_bind_eq_ok hnext
  cases hdone
  obtain ⟨opening, rfl, hopening⟩ := expect_eq_ok hopen
  exact rendering_of_call _ hvalue hplain.tail (.conversion ht) hopening hargs

theorem rendering_of_readPrimary (hvalue : ReadsRenderings 4 value) :
    ReadsRenderings 0 (readPrimary value) := by
  intro tokens e rest hplain h
  rw [readPrimary, get_bind_apply] at h
  rcases tokens with _ | ⟨t, tokens⟩
  · cases h
  -- Forms that begin with a word, conversions apart, are no part of the grammar.
  have hnoword : t.beginsLiteral = false := hplain t (List.mem_cons_self ..)
  dsimp only at h
  cases hkind : t.kind with
  | number x =>
    simp only [hkind, set_bind_apply, pure_apply] at h
    cases h
    exact ⟨[t], rfl, .number hkind⟩
  | string text =>
    simp only [hkind, set_bind_apply, pure_apply] at h
    cases h
    exact ⟨[t], rfl, .string hkind⟩
  | ident head =>
    simp only [hkind, set_bind_apply] at h
    exact rendering_of_readReference hvalue hplain.tail (Token.ident?_eq_some_iff.2 hkind) _ h
  | symbol sign =>
    simp only [hkind] at h
    cases sign with
    | leftParen =>
      simp only [set_bind_apply] at h
      obtain ⟨inner, between, hinner, hnext⟩ := exists_of_bind_eq_ok h
      obtain ⟨_, _, hclose, hdone⟩ := exists_of_bind_eq_ok hnext
      cases hdone
      obtain ⟨closing, rfl, hclosing⟩ := expect_eq_ok hclose
      obtain ⟨ts, rfl, hts⟩ := hvalue _ _ _ hplain.tail hinner
      exact ⟨t :: (ts ++ [closing]), by simp, .paren (Token.is_iff.2 hkind) hts hclosing⟩
    | _ => cases h
  | keyword word =>
    have hword : t.isWord word = true := Token.isWord_iff.2 hkind
    simp only [hkind] at h
    simp only [Token.beginsLiteral, List.any_cons, List.any_nil, Token.isWord, hkind] at hnoword
    cases word with
    | int | float | string | bool =>
      have hconversion : t.isConversion = true := by simp [Token.isConversion, hword]
      exact rendering_of_readConversion hvalue hplain.tail hconversion _ h
    | cube | mesh | material | modifier | group => cases hnoword
    | _ => cases h
  | eof =>
    simp only [hkind] at h
    cases h

theorem rendering_of_readUnary (hvalue : ReadsRenderings 4 value) :
    ReadsRenderings 0 (readUnary value) := by
  intro tokens
  induction tokens with
  | nil =>
    intro e rest hplain h
    rw [readUnary_of_head? (by simp)] at h
    exact rendering_of_readPrimary hvalue _ _ _ hplain h
  | cons t tokens ih =>
    intro e rest hplain h
    rcases readUnary_cases h with ⟨t', more, inner, heq, hminus, rfl, hmore⟩ | ⟨hprimary, -⟩
    · cases heq
      obtain ⟨ts, rfl, hts⟩ := ih _ _ hplain.tail hmore
      exact ⟨t :: ts, rfl, .negation hminus hts⟩
    · exact rendering_of_readPrimary hvalue _ _ _ hplain hprimary

/-- The rendering on the left grows by an operator and its right operand with each round. -/
theorem rendering_of_joinOperands {operand : Reader Expr} {left : Expr} {ls between : List Token}
    (hoperand : ReadsRenderings level operand) (hplain : Plain between)
    (hleft : Rendering (level + 1) left ls)
    (h : joinOperands (level + 1) operand n left between = .ok (e, rest)) :
    ∃ ts, ls ++ between = ts ++ rest ∧ Rendering (level + 1) e ts := by
  induction n generalizing left ls between with
  | zero =>
    cases h
    exact ⟨ls, rfl, hleft⟩
  | succ n ih =>
    rw [joinOperands] at h
    obtain ⟨found, after, haccept, hnext⟩ := exists_of_bind_eq_ok h
    clear h
    rcases acceptOperator_eq_ok haccept with ⟨t, op, rfl, rfl, hlevel, hop⟩ | ⟨rfl, rfl, -⟩
    · obtain ⟨right, after', hright, hlast⟩ := exists_of_bind_eq_ok hnext
      obtain ⟨rs, rfl, hrs⟩ := hoperand _ _ _ hplain.tail hright
      have hjoined : Rendering (level + 1) (left.operation op right) (ls ++ t :: rs) :=
        .operation (Nat.le_of_eq hlevel) (hlevel ▸ hleft) hop (by rwa [hlevel])
      obtain ⟨ts, htokens, hts⟩ := ih hplain.tail.of_append hjoined hlast
      exact ⟨ts, by simpa using htokens, hts⟩
    · cases hnext
      exact ⟨ls, rfl, hleft⟩

theorem rendering_of_readLevel (hvalue : ReadsRenderings 4 value) (level : Nat) :
    ReadsRenderings level (readLevel value level) := by
  induction level with
  | zero => exact rendering_of_readUnary hvalue
  | succ level ih =>
    intro tokens e rest hplain h
    rw [readLevel] at h
    obtain ⟨first, between, hfirst, hnext⟩ := exists_of_bind_eq_ok h
    obtain ⟨ls, rfl, hls⟩ := ih _ _ _ hplain hfirst
    exact rendering_of_joinOperands ih hplain.of_append (hls.mono (Nat.le_succ level)) hnext

theorem rendering_of_readWithin (depth : Nat) : ReadsRenderings 4 (readWithin depth) := by
  induction depth with
  | zero =>
    intro _ _ _ _ h
    cases h
  | succ depth ih => exact rendering_of_readLevel ih 4

end

/-! ### Reading is the grammar -/

def Ends (rest : List Token) : Prop :=
  ∀ t ∈ rest.head?, t.is .dot = false ∧ t.is .leftParen = false ∧
    ∀ op : BinaryOp, t.is op.symbol = false

/-- Before tokens that do not go on with it, a rendering is read as its expression, up to places;
and what is read off tokens without literals of shapes, materials and modifiers is the expression
of which the tokens that it took are a rendering. -/
theorem read_rendering_and_rendering_of_read :
    (∀ e ts rest, Rendering 4 e ts → Ends rest →
      ∃ found, read (ts ++ rest) = .ok (found, rest) ∧ found.unplaced = e.unplaced) ∧
    ∀ tokens e rest, Plain tokens → read tokens = .ok (e, rest) →
      ∃ ts, tokens = ts ++ rest ∧ Rendering 4 e ts := by
  refine ⟨fun e ts rest hts hends => ?_, fun tokens e rest hplain h => ?_⟩
  · obtain ⟨found, hfound, hreads⟩ := hts.exists_readsAs
    refine ⟨found, hreads.read fun t ht => ?_, hfound⟩
    obtain ⟨hdot, hparen, hop⟩ := hends t ht
    exact ⟨hdot, hparen, fun op _ => hop op⟩
  · exact rendering_of_readWithin _ tokens e rest hplain h

def differenceTokens : List Token :=
  ([.ofKind (.ident "a")] ++ .ofKind (.symbol .minus) :: [.ofKind (.ident "b")]) ++
    .ofKind (.symbol .minus) :: .ofKind (.symbol .minus) :: [.ofKind (.ident "c")]

/-- The second sign subtracts from the difference of the first two names, and the third one, which
stands where an operand begins, from zero. -/
theorem read_difference_of_negation :
    (∃ found, read (differenceTokens ++ [.ofKind (.symbol .semicolon)]) =
        .ok (found, [.ofKind (.symbol .semicolon)]) ∧
      found.unplaced = .binary .zero .sub
        (.binary .zero .sub (.reference .zero "a" []) (.reference .zero "b" []))
        (.binary .zero .sub (.number .zero 0) (.reference .zero "c" []))) ∧
    ∃ ts, differenceTokens = ts ++ [] ∧ Rendering 4 (.binary .zero .sub
      (.binary .zero .sub (.reference .zero "a" []) (.reference .zero "b" []))
      (.binary .zero .sub (.number .zero 0) (.reference .zero "c" []))) ts := by
  have hname (name : String) (n : Nat) :
      Rendering n (.reference .zero name []) [.ofKind (.ident name)] := .reference rfl .nil
  have hdifference : Rendering 4 (.binary .zero .sub
      (.binary .zero .sub (.reference .zero "a" []) (.reference .zero "b" []))
      (.binary .zero .sub (.number .zero 0) (.reference .zero "c" []))) differenceTokens := by
    refine .operation (by decide) (.operation (Nat.le_refl _) (hname "a" _) rfl
      (hname "b" _)) rfl ?_
    exact .negation rfl (hname "c" 0)
  refine ⟨read_rendering_and_rendering_of_read.1 _ _ _ hdifference ?_,
    read_rendering_and_rendering_of_read.2 differenceTokens _ []
      (by simp [Plain, differenceTokens]; decide) rfl⟩
  intro t ht
  obtain rfl : Token.ofKind (.symbol .semicolon) = t := by simpa using ht
  exact ⟨rfl, rfl, fun op => by cases op <;> rfl⟩

end Expr
end SceneScript
