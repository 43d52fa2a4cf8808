import SceneScript.Program.Reader

namespace SceneScript

namespace Token
variable {t : Token}

theorem is_iff {sign : Symbol} : t.is sign = true ↔ t.kind = .symbol sign := by
  unfold Token.is
  cases t.kind <;> simp

theorem isWord_iff {word : Keyword} : t.isWord word = true ↔ t.kind = .keyword word := by
  unfold Token.isWord
  cases t.kind <;> simp

theorem ident?_eq_some_iff {name : String} : t.ident? = some name ↔ t.kind = .ident name := by
  unfold Token.ident?
  cases t.kind <;> simp

/-- A token is one sign only. -/
theorem is_eq_of_kind {sign : Symbol} (h : t.kind = .symbol sign) (other : Symbol) :
    t.is other = (sign == other) := by
  unfold Token.is
  rw [h]

theorem is_eq_of_is {sign : Symbol} (h : t.is sign = true) (other : Symbol) :
    t.is other = (sign == other) := is_eq_of_kind (is_iff.1 h) other

end Token

namespace Reader
variable {α β : Type} {x : Reader α} {f : α → Reader β} {tokens rest between more : List Token}
  {t : Token} {a : α} {b : β}

@[simp] theorem pure_apply (a : α) (tokens : List Token) :
    (pure a : Reader α) tokens = .ok (a, tokens) := rfl

@[simp] theorem get_bind_apply (f : List Token → Reader β) (tokens : List Token) :
    (get >>= f) tokens = f tokens tokens := rfl

@[simp] theorem set_bind_apply (after : List Token) (f : PUnit → Reader β) (tokens : List Token) :
    (set after >>= f) tokens = f ⟨⟩ after := rfl

@[simp] theorem modify_bind_apply (g : List Token → List Token) (f : PUnit → Reader β)
    (tokens : List Token) : (modify g >>= f) tokens = f ⟨⟩ (g tokens) := rfl

@[simp] theorem peek?_bind_apply (f : Option Token → Reader β) (tokens : List Token) :
    (peek? >>= f) tokens = f tokens.head? tokens := rfl

@[simp] theorem nextIs_bind_apply (sign : Symbol) (f : Bool → Reader β) (tokens : List Token) :
    (nextIs sign >>= f) tokens = f (tokens.head?.any (·.is sign)) tokens := rfl

theorem bind_of_ok (f : α → Reader β) (h : x tokens = .ok (a, between)) :
    (x >>= f) tokens = f a between := by
  simp only [bind, StateT.bind, h, Except.bind]

theorem map_of_ok (g : α → β) (h : x tokens = .ok (a, between)) :
    (g <$> x) tokens = .ok (g a, between) := by
  rw [map_eq_pure_bind, bind_of_ok _ h, pure_apply]

theorem exists_of_bind_eq_ok (h : (x >>= f) tokens = .ok (b, rest)) :
    ∃ a between, x tokens = .ok (a, between) ∧ f a between = .ok (b, rest) := by
  cases hx : x tokens with
  | error d =>
    simp only [bind, StateT.bind, hx, Except.bind] at h
    cases h
  | ok read => exact ⟨read.1, read.2, rfl, by rwa [bind_of_ok f hx] at h⟩

theorem exists_of_map_eq_ok {g : α → β} (h : (g <$> x) tokens = .ok (b, rest)) :
    ∃ a, x tokens = .ok (a, rest) ∧ g a = b := by
  rw [map_eq_pure_bind] at h
  obtain ⟨a, between, hx, ha⟩ := exists_of_bind_eq_ok h
  cases ha
  exact ⟨a, hx, rfl⟩

theorem fail_ne_ok (cause : Cause) : (fail cause : Reader α) tokens ≠ .ok (a, rest) := nofun

theorem takeIf_cons_of_pos {test : Token → Bool} (h : test t = true) (rest : List Token) :
    takeIf test (t :: rest) = .ok (some t, rest) := by
  simp only [takeIf, h, if_true]

theorem takeIf_of_head? {test : Token → Bool} (h : ∀ t ∈ tokens.head?, test t = false) :
    takeIf test tokens = .ok (none, tokens) := by
  cases tokens with
  | nil => rfl
  | cons t rest => simp [takeIf, h t rfl]

/-- A test takes the next token, or leaves the tokens as they are. -/
theorem takeIf_eq_ok {test : Token → Bool} {found : Option Token}
    (h : takeIf test tokens = .ok (found, rest)) :
    (∃ t, tokens = t :: rest ∧ test t = true ∧ found = some t) ∨
      (rest = tokens ∧ found = none ∧ ∀ t ∈ tokens.head?, test t = false) := by
  cases tokens with
  | nil =>
    cases h
    exact .inr ⟨rfl, rfl, by simp⟩
  | cons t more =>
    cases htest : test t with
    | true =>
      rw [takeIf_cons_of_pos htest] at h
      cases h
      exact .inl ⟨t, rfl, htest, rfl⟩
    | false =>
      have hhead : ∀ t' ∈ (t :: more).head?, test t' = false := by simpa using htest
      rw [takeIf_of_head? hhead] at h
      cases h
      exact .inr ⟨rfl, rfl, hhead⟩

theorem accept_cons_of_is {sign : Symbol} (h : t.is sign = true) (rest : List Token) :
    accept sign (t :: rest) = .ok (true, rest) := by
  rw [accept, bind_of_ok _ (takeIf_cons_of_pos h rest)]
  rfl

theorem accept_of_head? {sign : Symbol} (h : ∀ t ∈ tokens.head?, t.is sign = false) :
    accept sign tokens = .ok (false, tokens) := by
  rw [accept, bind_of_ok _ (takeIf_of_head? h)]
  rfl

theorem accept_eq_ok {sign : Symbol} {found : Bool} (h : accept sign tokens = .ok (found, rest)) :
    (∃ t, tokens = t :: rest ∧ t.is sign = true ∧ found = true) ∨
      (rest = tokens ∧ found = false ∧ ∀ t ∈ tokens.head?, t.is sign = false) := by
  obtain ⟨taken, between, htake, hfound⟩ := exists_of_bind_eq_ok h
  cases hfound
  rcases takeIf_eq_ok htake with ⟨t, rfl, ht, rfl⟩ | ⟨rfl, rfl, hnone⟩
  · exact .inl ⟨t, rfl, ht, rfl⟩
  · exact .inr ⟨rfl, rfl, hnone⟩

theorem acceptWord_cons_of_isWord {word : Keyword} (h : t.isWord word = true) (rest : List Token) :
    acceptWord word (t :: rest) = .ok (true, rest) := by
  rw [acceptWord, bind_of_ok _ (takeIf_cons_of_pos h rest)]
  rfl

theorem acceptWord_of_head? {word : Keyword} (h : ∀ t ∈ tokens.head?, t.isWord word = false) :
    acceptWord word tokens = .ok (false, tokens) := by
  rw [acceptWord, bind_of_ok _ (takeIf_of_head? h)]
  rfl

theorem expect_cons_of_is {sign : Symbol} (wanted : String) (h : t.is sign = true)
    (rest : List Token) : expect sign wanted (t :: rest) = .ok ((), rest) := by
  rw [expect, bind_of_ok _ (accept_cons_of_is h rest)]
  rfl

theorem expect_eq_ok {sign : Symbol} {wanted : String} {u : Unit}
    (h : expect sign wanted tokens = .ok (u, rest)) :
    ∃ t, tokens = t :: rest ∧ t.is sign = true := by
  obtain ⟨found, between, haccept, hfound⟩ := exists_of_bind_eq_ok h
  rcases accept_eq_ok haccept with ⟨t, rfl, ht, rfl⟩ | ⟨rfl, rfl, -⟩
  · cases hfound
    exact ⟨t, rfl, ht⟩
  · cases hfound

theorem expectWord_cons_of_isWord {word : Keyword} (wanted : String) (h : t.isWord word = true)
    (rest : List Token) : expectWord word wanted (t :: rest) = .ok ((), rest) := by
  rw [expectWord, bind_of_ok _ (acceptWord_cons_of_isWord h rest)]
  rfl

theorem expectSome_cons {select : Token → Option α} (wanted : String) (h : select t = some a)
    (rest : List Token) : expectSome select wanted (t :: rest) = .ok (a, rest) := by
  simp only [expectSome, h]

theorem expectSome_eq_ok {select : Token → Option α} {wanted : String}
    (h : expectSome select wanted tokens = .ok (a, rest)) :
    ∃ t, tokens = t :: rest ∧ select t = some a := by
  unfold expectSome at h
  split at h
  next t more =>
    split at h
    next a' ha =>
      cases h
      exact ⟨t, rfl, ha⟩
    next => cases h
  next => cases h

theorem ident_eq_ok {wanted name : String} (h : ident wanted tokens = .ok (name, rest)) :
    ∃ t, tokens = t :: rest ∧ t.ident? = some name := expectSome_eq_ok h

theorem name_eq_ok {wanted text : String} (h : name wanted tokens = .ok (text, rest)) :
    ∃ t, tokens = t :: rest ∧ t.name? = some text := expectSome_eq_ok h

theorem repeatWhile_nil (continues : Token → Bool) (step : Reader α) (n : Nat) :
    repeatWhile continues step n [] = .ok ([], []) := by
  cases n <;> rfl

theorem repeatWhile_of_head? {continues : Token → Bool} (step : Reader α) (n : Nat)
    (h : ∀ t ∈ tokens.head?, continues t = false) :
    repeatWhile continues step n tokens = .ok ([], tokens) := by
  cases tokens with
  | nil => exact repeatWhile_nil continues step n
  | cons t rest =>
    cases n with
    | zero => rfl
    | succ n => simp [repeatWhile, h t rfl]

/-- A round of a loop, and the rounds after it. -/
theorem repeatWhile_succ {continues : Token → Bool} {step : Reader α} {n : Nat} {as : List α}
    (ht : continues t = true) (hstep : step (t :: more) = .ok (a, between))
    (hrest : repeatWhile continues step n between = .ok (as, rest)) :
    repeatWhile continues step (n + 1) (t :: more) = .ok (a :: as, rest) := by
  rw [repeatWhile, peek?_bind_apply]
  dsimp only [List.head?_cons]
  rw [if_pos ht, bind_of_ok _ hstep, bind_of_ok _ hrest, pure_apply]

/-- A loop stops at once, or goes on after one round. -/
theorem repeatWhile_eq_ok {continues : Token → Bool} {step : Reader α} {n : Nat} {as : List α}
    (h : repeatWhile continues step (n + 1) tokens = .ok (as, rest)) :
    (as = [] ∧ rest = tokens ∧ ∀ t ∈ tokens.head?, continues t = false) ∨
      ∃ t more a more' between, tokens = t :: more ∧ continues t = true ∧
        step (t :: more) = .ok (a, between) ∧
        repeatWhile continues step n between = .ok (more', rest) ∧ as = a :: more' := by
  cases tokens with
  | nil =>
    cases h
    exact .inl ⟨rfl, rfl, by simp⟩
  | cons t more =>
    rw [repeatWhile, peek?_bind_apply] at h
    dsimp only [List.head?_cons] at h
    split at h
    next ht =>
      obtain ⟨a, between, hstep, h⟩ := exists_of_bind_eq_ok h
      obtain ⟨more', between', hrest, h⟩ := exists_of_bind_eq_ok h
      cases h
      exact .inr ⟨t, more, a, more', between, rfl, ht, hstep, hrest, rfl⟩
    next ht =>
      cases h
      exact .inl ⟨rfl, rfl, by simpa using ht⟩

theorem afterCommas_of_head? (item : Reader α) (n : Nat)
    (h : ∀ t ∈ tokens.head?, t.is .comma = false) :
    afterCommas item n tokens = .ok ([], tokens) := by
  cases n with
  | zero => rfl
  | succ n =>
    rw [afterCommas, bind_of_ok _ (accept_of_head? h)]
    rfl

theorem afterCommas_succ {item : Reader α} {n : Nat} {as : List α} (ht : t.is .comma = true)
    (hitem : item more = .ok (a, between))
    (hrest : afterCommas item n between = .ok (as, rest)) :
    afterCommas item (n + 1) (t :: more) = .ok (a :: as, rest) := by
  rw [afterCommas, bind_of_ok _ (accept_cons_of_is ht more)]
  rw [if_pos rfl, bind_of_ok _ hitem, bind_of_ok _ hrest, pure_apply]

theorem afterCommas_eq_ok {item : Reader α} {n : Nat} {as : List α}
    (h : afterCommas item (n + 1) tokens = .ok (as, rest)) :
    (as = [] ∧ rest = tokens ∧ ∀ t ∈ tokens.head?, t.is .comma = false) ∨
      ∃ t more a more' between, tokens = t :: more ∧ t.is .comma = true ∧
        item more = .ok (a, between) ∧ afterCommas item n between = .ok (more', rest) ∧
        as = a :: more' := by
  rw [afterCommas] at h
  obtain ⟨found, between, haccept, h⟩ := exists_of_bind_eq_ok h
  rcases accept_eq_ok haccept with ⟨t, rfl, ht, rfl⟩ | ⟨rfl, rfl, hnone⟩
  · obtain ⟨a, between', hitem, h⟩ := exists_of_bind_eq_ok h
    obtain ⟨more', between'', hrest, h⟩ := exists_of_bind_eq_ok h
    cases h
    exact .inr ⟨t, between, a, more', between', rfl, ht, hitem, hrest, rfl⟩
  · cases h
    exact .inl ⟨rfl, rfl, hnone⟩

end Reader
end SceneScript
