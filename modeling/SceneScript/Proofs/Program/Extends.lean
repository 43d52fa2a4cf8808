import SceneScript.Proofs.Program.Levels

namespace SceneScript

namespace Token
variable {t : Token} {sign : Symbol} {word : Keyword}

def openingWords : List Keyword := [.importing, .confining, .conditional, .whileLoop, .forLoop]

/-- Whether an item of a program, a statement or a semicolon, may begin with the token. -/
def beginsItem (t : Token) : Bool :=
  match t.kind with
  | .ident _ => true
  | .symbol sign => sign == .semicolon
  | .keyword word => openingWords.contains word
  | _ => false

theorem is_of_beginsItem (h : t.beginsItem = true) (hsign : sign ≠ .semicolon) :
    t.is sign = false := by
  unfold beginsItem at h
  unfold Token.is
  cases hkind : t.kind with
  | symbol other =>
    simp only [hkind, beq_iff_eq] at h
    simp only [h, beq_eq_false_iff_ne, ne_eq]
    exact hsign.symm
  | _ => rfl

theorem isWord_of_beginsItem (h : t.beginsItem = true)
    (hword : openingWords.contains word = false) : t.isWord word = false := by
  unfold beginsItem at h
  unfold Token.isWord
  cases hkind : t.kind with
  | keyword other =>
    simp only [hkind] at h
    rw [beq_eq_false_iff_ne]
    rintro rfl
    rw [hword] at h
    cases h
  | _ => rfl

def closingSigns : List Symbol := [.rightParen, .rightBracket, .rightBrace]

def closes (t : Token) : Bool := closingSigns.any (t.is ·)

theorem closes_of_is (h : t.is sign = true) (hsign : sign ∈ closingSigns) : t.closes = true :=
  List.any_eq_true.2 ⟨sign, hsign, h⟩

end Token

namespace Reader
variable {α β : Type} {i : Bool} {more rest between tokens : List Token}

/-- More tokens may be put behind these. Inside of brackets, one of these closes a bracket; outside,
an item begins where these end. -/
def Open (inside : Bool) (more rest : List Token) : Prop :=
  if inside then ∃ t ∈ rest, t.closes = true
  else rest = [] → ∃ t ∈ more.head?, t.beginsItem = true

theorem Open.of_suffix (h : Open i more rest) (hsuffix : rest <:+ between) :
    Open i more between := by
  cases i with
  | true =>
    obtain ⟨t, ht, hcloses⟩ := h
    exact ⟨t, hsuffix.subset ht, hcloses⟩
  | false =>
    rintro rfl
    exact h (List.suffix_nil.1 hsuffix)

theorem Open.outside (h : Open i more rest) : Open false more rest := by
  cases i with
  | true =>
    rintro rfl
    obtain ⟨t, ht, -⟩ := h
    cases ht
  | false => exact h

theorem open_of_closes {t : Token} (ht : t ∈ rest) (hcloses : t.closes = true) :
    Open i more rest := by
  cases i with
  | true => exact ⟨t, ht, hcloses⟩
  | false =>
    rintro rfl
    cases ht

/-- A test that fails at the next token, and at tokens that begin an item, fails at the next token
with more behind. -/
theorem Open.head?_append {test : Token → Bool} (h : Open i more tokens)
    (htest : i = true ∨ ∀ t : Token, t.beginsItem = true → test t = false)
    (hnone : ∀ t ∈ tokens.head?, test t = false) :
    ∀ t ∈ (tokens ++ more).head?, test t = false := by
  rcases tokens with _ | ⟨first, others⟩
  · rcases htest with rfl | htest
    · obtain ⟨t, ht, -⟩ := h
      cases ht
    · obtain ⟨t, ht, hbegins⟩ := h.outside rfl
      intro t' ht'
      rw [List.nil_append] at ht'
      rw [Option.mem_unique ht' ht]
      exact htest t hbegins
  · simpa using hnone

/-- Where `x` comes to a value, it takes tokens off the front, and `y` comes to the same value with
more behind. -/
def Extends (inside : Bool) (more : List Token) (x y : Reader α) : Prop :=
  ∀ tokens a rest, x tokens = .ok (a, rest) →
    rest <:+ tokens ∧ (Open inside more rest → y (tokens ++ more) = .ok (a, rest ++ more))

def Takes (inside : Bool) (more : List Token) (x y : Reader α) : Prop :=
  ∀ tokens a rest, x tokens = .ok (a, rest) → ∃ t others, tokens = t :: others ∧
    rest <:+ others ∧ (Open inside more rest → y (tokens ++ more) = .ok (a, rest ++ more))

def Closes (x : Reader α) : Prop :=
  ∀ tokens a rest, x tokens = .ok (a, rest) → ∃ t ∈ tokens, t.closes = true

/-! ### Laws -/

section Laws
variable {x y : Reader α} {f g : α → Reader β}

theorem Extends.weaken (h : Extends false more x y) : Extends i more x y :=
  fun tokens a rest hread =>
    ⟨(h tokens a rest hread).1, fun ho => (h tokens a rest hread).2 ho.outside⟩

theorem Extends.pure (a : α) : Extends i more (pure a : Reader α) (pure a) := by
  intro tokens _ _ h
  cases h
  exact ⟨List.suffix_rfl, fun _ => rfl⟩

theorem Extends.bind (hx : Extends i more x y) (hf : ∀ a, Extends i more (f a) (g a)) :
    Extends i more (x >>= f) (y >>= g) := by
  intro tokens b rest h
  obtain ⟨a, between, hread, hnext⟩ := exists_of_bind_eq_ok h
  obtain ⟨hfirst, hy⟩ := hx _ _ _ hread
  obtain ⟨hsecond, hg⟩ := hf a _ _ _ hnext
  exact ⟨hsecond.trans hfirst, fun ho => by
    rw [bind_of_ok g (hy (ho.of_suffix hsecond))]
    exact hg ho⟩

/-- Inside of a bracket that is closed later on, anything may be put behind. -/
theorem Extends.closed (hx : Extends true more x y) (hf : ∀ a, Extends i more (f a) (g a))
    (hcloses : ∀ a, Closes (f a)) : Extends i more (x >>= f) (y >>= g) := by
  intro tokens b rest h
  obtain ⟨a, between, hread, hnext⟩ := exists_of_bind_eq_ok h
  obtain ⟨hfirst, hy⟩ := hx _ _ _ hread
  obtain ⟨hsecond, hg⟩ := hf a _ _ _ hnext
  refine ⟨hsecond.trans hfirst, fun ho => ?_⟩
  obtain ⟨t, ht, hclosing⟩ := hcloses a _ _ _ hnext
  rw [bind_of_ok g (hy (open_of_closes ht hclosing))]
  exact hg ho

theorem Extends.map (k : α → β) (hx : Extends i more x y) : Extends i more (k <$> x) (k <$> y) := by
  rw [map_eq_pure_bind, map_eq_pure_bind]
  exact hx.bind fun a => .pure (k a)

theorem Extends.ite {c : Prop} [Decidable c] {x' y' : Reader α} (hx : Extends i more x y)
    (hx' : Extends i more x' y') :
    Extends i more (if c then x else x') (if c then y else y') := by
  split
  · exact hx
  · exact hx'

/-- Two ways to go on alike. -/
theorem Extends.either {c : Prop} [Decidable c] {x' y' : Reader α} (hx : Extends i more x y)
    (hx' : Extends i more x' y') (hf : ∀ a, Extends i more (f a) (g a)) :
    Extends i more (if c then x >>= f else x' >>= f) (if c then y >>= g else y' >>= g) :=
  .ite (hx.bind hf) (hx'.bind hf)

theorem Extends.of_ne_ok (h : ∀ tokens a rest, x tokens ≠ .ok (a, rest)) : Extends i more x y :=
  fun tokens a rest hread => absurd hread (h tokens a rest)

theorem Takes.extends (h : Takes i more x y) : Extends i more x y := by
  intro tokens a rest hread
  obtain ⟨t, others, rfl, hsuffix, hy⟩ := h _ _ _ hread
  exact ⟨hsuffix.trans (List.suffix_cons t others), hy⟩

theorem Takes.of_eq_ok {a : α} (hread : x tokens = .ok (a, rest)) (h : Takes i more x x) :
    ∃ t others, tokens = t :: others ∧ rest <:+ others ∧
      (Open i more rest → x (tokens ++ more) = .ok (a, rest ++ more)) := h _ _ _ hread

theorem Takes.bind (hx : Takes i more x y) (hf : ∀ a, Extends i more (f a) (g a)) :
    Takes i more (x >>= f) (y >>= g) := by
  intro tokens b rest h
  obtain ⟨a, between, hread, hnext⟩ := exists_of_bind_eq_ok h
  obtain ⟨t, others, rfl, hfirst, -⟩ := hx _ _ _ hread
  exact ⟨t, others, rfl, (hf a _ _ _ hnext).1.trans hfirst, (hx.extends.bind hf _ _ _ h).2⟩

end Laws

/-! ### Single tokens -/

theorem extends_takeIf {test : Token → Bool}
    (htest : i = true ∨ ∀ t : Token, t.beginsItem = true → test t = false) :
    Extends i more (takeIf test) (takeIf test) := by
  intro tokens found rest h
  rcases takeIf_eq_ok h with ⟨t, rfl, ht, rfl⟩ | ⟨rfl, rfl, hnone⟩
  · exact ⟨List.suffix_cons t rest, fun _ => takeIf_cons_of_pos ht _⟩
  · exact ⟨List.suffix_rfl, fun ho => takeIf_of_head? (ho.head?_append htest hnone)⟩

/-- A test may fail for want of a token if what is read then fails for want of one too. -/
theorem extends_takeIf_bind {test : Token → Bool} {f g : Option Token → Reader β}
    (hsome : ∀ t, Extends i more (f (some t)) (g (some t)))
      (hnone : Extends i more (f none) (g none))
    (hfails : ∀ b rest, f none [] ≠ .ok (b, rest)) :
    Extends i more (takeIf test >>= f) (takeIf test >>= g) := by
  intro tokens b rest h
  rcases tokens with _ | ⟨t, others⟩
  · exact absurd h (hfails b rest)
  cases htest : test t with
  | true =>
    rw [bind_of_ok _ (takeIf_cons_of_pos htest _)] at h
    obtain ⟨hsuffix, hread⟩ := hsome t _ _ _ h
    refine ⟨hsuffix.trans (List.suffix_cons ..), fun ho => ?_⟩
    rw [List.cons_append, bind_of_ok _ (takeIf_cons_of_pos htest _)]
    exact hread ho
  | false =>
    rw [bind_of_ok _ (takeIf_of_head? (by simpa using htest))] at h
    obtain ⟨hsuffix, hread⟩ := hnone _ _ _ h
    refine ⟨hsuffix, fun ho => ?_⟩
    rw [bind_of_ok _ (takeIf_of_head? (by simpa using htest))]
    exact hread ho

theorem extends_accept {sign : Symbol} (hsign : sign ≠ .semicolon) :
    Extends i more (accept sign) (accept sign) :=
  (extends_takeIf (.inr fun _ h => Token.is_of_beginsItem h hsign)).bind fun _ => .pure _

theorem extends_accept_inside (sign : Symbol) : Extends true more (accept sign) (accept sign) :=
  (extends_takeIf (.inl rfl)).bind fun _ => .pure _

theorem extends_acceptWord {word : Keyword} (hword : Token.openingWords.contains word = false) :
    Extends i more (acceptWord word) (acceptWord word) :=
  (extends_takeIf (.inr fun _ h => Token.isWord_of_beginsItem h hword)).bind fun _ => .pure _

theorem extends_expect (sign : Symbol) (wanted : String) :
    Extends i more (expect sign wanted) (expect sign wanted) := by
  intro tokens _ rest h
  obtain ⟨t, rfl, ht⟩ := expect_eq_ok h
  exact ⟨List.suffix_cons t rest, fun _ => expect_cons_of_is wanted ht _⟩

theorem extends_expectWord (word : Keyword) (wanted : String) :
    Extends i more (expectWord word wanted) (expectWord word wanted) := by
  intro tokens _ rest h
  obtain ⟨found, between, haccept, hfound⟩ := exists_of_bind_eq_ok h
  obtain ⟨taken, _, htake, hdone⟩ := exists_of_bind_eq_ok haccept
  cases hdone
  rcases takeIf_eq_ok htake with ⟨t, rfl, ht, rfl⟩ | ⟨rfl, rfl, -⟩
  · cases hfound
    exact ⟨List.suffix_cons t rest, fun _ => expectWord_cons_of_isWord wanted ht _⟩
  · cases hfound

theorem takes_expectSome (select : Token → Option α) (wanted : String) :
    Takes i more (expectSome select wanted) (expectSome select wanted) := by
  intro tokens a rest h
  obtain ⟨t, rfl, ht⟩ := expectSome_eq_ok h
  exact ⟨t, rest, rfl, List.suffix_rfl, fun _ => expectSome_cons wanted ht _⟩

theorem extends_expectSome (select : Token → Option α) (wanted : String) :
    Extends i more (expectSome select wanted) (expectSome select wanted) :=
  (takes_expectSome select wanted).extends

theorem takes_ident (wanted : String) : Takes i more (ident wanted) (ident wanted) :=
  takes_expectSome _ wanted

theorem extends_ident (wanted : String) : Extends i more (ident wanted) (ident wanted) :=
  extends_expectSome _ wanted

theorem extends_name (wanted : String) : Extends i more (name wanted) (name wanted) :=
  extends_expectSome _ wanted

theorem closes_expect_bind {sign : Symbol} (hsign : sign ∈ Token.closingSigns) (wanted : String)
    (f : Unit → Reader β) : Closes (expect sign wanted >>= f) := by
  intro tokens b rest h
  obtain ⟨_, between, hexpect, -⟩ := exists_of_bind_eq_ok h
  obtain ⟨t, rfl, ht⟩ := expect_eq_ok hexpect
  exact ⟨t, List.mem_cons_self .., Token.closes_of_is ht hsign⟩

theorem extends_nextIs {sign : Symbol} (hsign : sign ≠ .semicolon) :
    Extends i more (nextIs sign) (nextIs sign) := by
  intro tokens found rest h
  cases h
  refine ⟨List.suffix_rfl, fun ho => ?_⟩
  rw [nextIs, List.head?_append]
  cases hhead : tokens.head? with
  | some t => rfl
  | none =>
    obtain rfl := List.head?_eq_none_iff.1 hhead
    obtain ⟨t, ht, hbegins⟩ := ho.outside rfl
    rw [ht, Option.none_or, Option.any_some, Token.is_of_beginsItem hbegins hsign, Option.any_none]

theorem extends_peek?_bind {f g : Option Token → Reader β}
    (hf : ∀ next, Extends true more (f next) (g next)) :
    Extends true more (peek? >>= f) (peek? >>= g) := by
  intro tokens b rest h
  rw [peek?_bind_apply] at h ⊢
  obtain ⟨hsuffix, hg⟩ := hf _ _ _ _ h
  refine ⟨hsuffix, fun ho => ?_⟩
  obtain ⟨t, ht, -⟩ := ho.of_suffix hsuffix
  rw [List.head?_append_of_ne_nil _ (List.ne_nil_of_mem ht)]
  exact hg ho

/-! ### Loops -/

/-- A loop whose bound is no less than the number of tokens extends to the loop of any larger
bound. -/
def ExtendsSized (inside : Bool) (more : List Token) (loop loop' : Nat → Reader α) : Prop :=
  ∀ n tokens a rest, tokens.length ≤ n → loop n tokens = .ok (a, rest) →
    rest <:+ tokens ∧ (Open inside more rest → ∀ m, n ≤ m →
      loop' m (tokens ++ more) = .ok (a, rest ++ more))

section
variable {loop loop' : Nat → Reader α} {f g : α → Reader β}

theorem ExtendsSized.extends (h : ExtendsSized i more loop loop') :
    Extends i more (get >>= fun tokens => loop tokens.length)
      (get >>= fun tokens => loop' tokens.length) := by
  intro tokens a rest hread
  rw [get_bind_apply] at hread ⊢
  obtain ⟨hsuffix, hmore⟩ := h _ _ _ _ (Nat.le_refl _) hread
  exact ⟨hsuffix, fun ho => hmore ho _ (by simp)⟩

theorem ExtendsSized.bind (h : ExtendsSized i more loop loop')
    (hf : ∀ a, Extends i more (f a) (g a)) :
    Extends i more (get >>= fun tokens => loop tokens.length >>= f)
      (get >>= fun tokens => loop' tokens.length >>= g) := by
  simpa only [bind_assoc] using h.extends.bind hf

theorem ExtendsSized.closed (h : ExtendsSized true more loop loop')
    (hf : ∀ a, Extends i more (f a) (g a)) (hcloses : ∀ a, Closes (f a)) :
    Extends i more (get >>= fun tokens => loop tokens.length >>= f)
      (get >>= fun tokens => loop' tokens.length >>= g) := by
  simpa only [bind_assoc] using h.extends.closed hf hcloses

end

section
variable {item item' : Reader α} {as : List α} {n : Nat}

theorem extendsSized_afterCommas (hitem : Extends i more item item') :
    ExtendsSized i more (afterCommas item) (afterCommas item') := by
  have hcomma (t : Token) (h : t.beginsItem = true) : t.is .comma = false :=
    Token.is_of_beginsItem h (by decide)
  intro n
  induction n with
  | zero =>
    intro tokens as rest hn h
    cases h
    obtain rfl := List.eq_nil_of_length_eq_zero (Nat.le_zero.1 hn)
    exact ⟨List.suffix_rfl, fun ho m _ =>
      afterCommas_of_head? item' m (ho.head?_append (.inr hcomma) (by simp))⟩
  | succ n ih =>
    intro tokens as rest hn h
    rcases afterCommas_eq_ok h with ⟨rfl, rfl, hnone⟩ |
      ⟨comma, others, a, later, between, rfl, hsign, hread, hlater, rfl⟩
    · exact ⟨List.suffix_rfl, fun ho m _ =>
        afterCommas_of_head? item' m (ho.head?_append (.inr hcomma) hnone)⟩
    · obtain ⟨hfirst, hitem'⟩ := hitem _ _ _ hread
      have hshort := hfirst.length_le
      obtain ⟨hsecond, hmore⟩ := ih _ _ _ (by simp at hn; omega) hlater
      refine ⟨(hsecond.trans hfirst).trans (List.suffix_cons ..), fun ho m hm => ?_⟩
      obtain ⟨m, rfl⟩ : ∃ k, m = k + 1 := ⟨m - 1, by omega⟩
      exact afterCommas_succ hsign (hitem' (ho.of_suffix hsecond)) (hmore ho m (by omega))

theorem extends_moreAfterCommas (hitem : Extends i more item item') :
    Extends i more (moreAfterCommas item) (moreAfterCommas item') :=
  (extendsSized_afterCommas hitem).extends

theorem repeatWhile_append {continues : Token → Bool} (hitem : Extends true more item item')
    (h : repeatWhile continues item n tokens = .ok (as, rest)) :
    rest <:+ tokens ∧ ((∃ t ∈ rest.head?, t.closes = true ∧ continues t = false) → ∀ m, n ≤ m →
      repeatWhile continues item' m (tokens ++ more) = .ok (as, rest ++ more)) := by
  have hstop (m : Nat) (hends : ∃ t ∈ rest.head?, t.closes = true ∧ continues t = false) :
      repeatWhile continues item' m (rest ++ more) = .ok ([], rest ++ more) := by
    obtain ⟨t, ht, -, hcontinues⟩ := hends
    refine repeatWhile_of_head? item' m fun t' ht' => ?_
    rw [List.head?_append, ht] at ht'
    cases ht'
    exact hcontinues
  induction n generalizing tokens as with
  | zero =>
    cases h
    exact ⟨List.suffix_rfl, fun hends m _ => hstop m hends⟩
  | succ n ih =>
    rcases repeatWhile_eq_ok h with ⟨rfl, rfl, -⟩ |
      ⟨t, others, a, later, between, rfl, ht, hread, hlater, rfl⟩
    · exact ⟨List.suffix_rfl, fun hends m _ => hstop m hends⟩
    · obtain ⟨hfirst, hitem'⟩ := hitem _ _ _ hread
      obtain ⟨hsecond, hmore⟩ := ih hlater
      refine ⟨hsecond.trans hfirst, fun hends m hm => ?_⟩
      obtain ⟨m, rfl⟩ : ∃ k, m = k + 1 := ⟨m - 1, by omega⟩
      -- The sign that the loop stops at is also behind every round, which it keeps open.
      have hopen : Open true more between := by
        obtain ⟨closing, hclosing, hcloses, -⟩ := hends
        exact open_of_closes (hsecond.subset (List.mem_of_mem_head? hclosing)) hcloses
      exact repeatWhile_succ ht (hitem' hopen) (hmore hends m (by omega))

/-- Where `x` comes to a value in front of a closing sign, `y` does so with more behind. -/
def ExtendsUpTo (closing : Symbol) (more : List Token) (x y : Reader α) : Prop :=
  ∀ tokens a rest, x tokens = .ok (a, rest) → rest <:+ tokens ∧
    ((∃ t ∈ rest.head?, t.is closing = true) → y (tokens ++ more) = .ok (a, rest ++ more))

theorem extendsUpTo_untilClosed {closing : Symbol} (hclosing : closing ∈ Token.closingSigns)
    (hitem : Extends true more item item') :
    ExtendsUpTo closing more (untilClosed closing item) (untilClosed closing item') := by
  intro tokens as rest h
  rw [untilClosed, get_bind_apply] at h
  obtain ⟨hsuffix, hmore⟩ := repeatWhile_append hitem h
  refine ⟨hsuffix, fun ⟨t, ht, hsign⟩ => ?_⟩
  rw [untilClosed, get_bind_apply]
  exact hmore ⟨t, ht, Token.closes_of_is hsign hclosing, by rw [hsign]; rfl⟩ _ (by simp)

theorem ExtendsUpTo.map {closing : Symbol} {x y : Reader α} (k : α → β)
    (h : ExtendsUpTo closing more x y) : ExtendsUpTo closing more (k <$> x) (k <$> y) := by
  intro tokens b rest hread
  obtain ⟨a, hx, rfl⟩ := exists_of_map_eq_ok hread
  obtain ⟨hsuffix, hy⟩ := h _ _ _ hx
  exact ⟨hsuffix, fun hends => map_of_ok k (hy hends)⟩

/-- The closing sign is there, so anything may be put behind. -/
theorem ExtendsUpTo.expect {closing : Symbol} {x y : Reader α} {f g : α → Unit → Reader β}
    {wanted : String} (hx : ExtendsUpTo closing more x y)
    (hf : ∀ a u, Extends i more (f a u) (g a u)) :
    Extends i more (x >>= fun a => Reader.expect closing wanted >>= f a)
      (y >>= fun a => Reader.expect closing wanted >>= g a) := by
  intro tokens b rest h
  obtain ⟨a, between, hread, hnext⟩ := exists_of_bind_eq_ok h
  obtain ⟨u, after, hexpect, hlast⟩ := exists_of_bind_eq_ok hnext
  obtain ⟨t, rfl, ht⟩ := expect_eq_ok hexpect
  obtain ⟨hfirst, hy⟩ := hx _ _ _ hread
  obtain ⟨hsecond, hg⟩ := hf a u _ _ _ hlast
  refine ⟨(hsecond.trans (List.suffix_cons t after)).trans hfirst, fun ho => ?_⟩
  rw [bind_of_ok _ (hy ⟨t, rfl, ht⟩), List.cons_append,
    bind_of_ok _ (expect_cons_of_is wanted ht _)]
  exact hg ho

end

end Reader
end SceneScript
