import SceneScript.Proofs.Program.ReparseExpr
import SceneScript.Proofs.Program.StopsBefore
import SceneScript.Proofs.Program.Total

namespace SceneScript.Expr
open Reader

variable {accepted : List String} {rest ts us : List Token}

/-! ### Entries -/

/-- A key of an entry: a name that the block accepts. -/
structure Key (accepted : List String) where
  token : Token
  name : String
  named : token.name? = some name
  accepts : name ∈ accepted

/-- A value of an entry: tokens that are one expression as a whole. -/
structure EntryValue where
  tokens : List Token
  expr : Expr
  reads : Expr.read tokens = .ok (expr, [])

def EntryValue.IsBare (accepted : List String) (v : EntryValue) : Prop :=
  ∃ t name, v.tokens = [t] ∧ t.name? = some name ∧ name ∈ accepted

/-- An entry `k1, ..., km = v1, ..., vn` where `m` is `n` or one, and only the first value may be an
accepted name alone. -/
structure Entry (accepted : List String) where
  key : Key accepted
  moreKeys : List (Key accepted)
  first : EntryValue
  more : List EntryValue
  unbare : ∀ v ∈ more, ¬v.IsBare accepted
  arity : moreKeys.length = more.length ∨ moreKeys = []

namespace Entry

def keys (entry : Entry accepted) : List (Key accepted) := entry.key :: entry.moreKeys

def values (entry : Entry accepted) : List EntryValue := entry.first :: entry.more

def properties (entry : Entry accepted) : List (Property Expr) :=
  if entry.keys.length = entry.values.length then
    List.zipWith (fun key v => .single key.name v.expr) entry.keys entry.values
  else [.list entry.key.name (entry.values.map (·.expr))]

def Written (entry : Entry accepted) (ts : List Token) : Prop :=
  ∃ front equal back, Separated (entry.keys.map fun key => [key.token]) front ∧
    equal.is .equal = true ∧ Separated (entry.values.map (·.tokens)) back ∧
    ts = front ++ equal :: back

end Entry

/-- The tokens of entries, with one of the signs between each two. -/
inductive Block (signs : List Symbol) : List (Entry accepted) → List Token → Prop
  | nil : Block signs [] []
  | last {entry : Entry accepted} {ts : List Token} : entry.Written ts → Block signs [entry] ts
  | more {entry next : Entry accepted} {entries : List (Entry accepted)} {ts us : List Token}
      {separator : Token} {sign : Symbol} : entry.Written ts → sign ∈ signs →
      separator.is sign = true → Block signs (next :: entries) us →
      Block signs (entry :: next :: entries) (ts ++ separator :: us)

/-! ### Where values end -/

theorem is_of_expect_bind {α : Type} {t : Token} {sign : Symbol} {wanted : String}
    {f : Unit → Reader α} {more : List Token} {a : α}
    (h : (expect sign wanted >>= f) (t :: more) = .ok (a, rest)) : t.is sign = true := by
  obtain ⟨_, between, hexpect, -⟩ := exists_of_bind_eq_ok h
  obtain ⟨t', heq, hsign⟩ := expect_eq_ok hexpect
  cases heq
  exact hsign

/-- What a word begins goes on with a dot or an opening bracket. -/
theorem sign_behind_word {t u : Token} {more : List Token} {word : Keyword} {e : Expr}
    (hword : t.kind = .keyword word) (h : Expr.read (t :: u :: more) = .ok (e, rest)) :
    ∃ sign ∈ [Symbol.dot, .leftParen, .leftBrace, .leftBracket], u.is sign = true := by
  obtain ⟨first, between, hfirst⟩ := exists_readUnary_of_readLevel h
  rcases readUnary_cases hfirst with ⟨t', more', -, heq, hminus, -, -⟩ | ⟨hprimary, -⟩
  · cases heq
    rw [Token.is, hword] at hminus
    cases hminus
  rw [readPrimary, get_bind_apply] at hprimary
  simp only [hword] at hprimary
  cases word with
  | cube =>
    have hread : readCube t.span (u :: more) = .ok (first, between) := hprimary
    exact ⟨.leftParen, by decide, is_of_expect_bind hread⟩
  | mesh =>
    have hread : readMesh t.span (u :: more) = .ok (first, between) := hprimary
    exact ⟨.leftBrace, by decide, is_of_expect_bind hread⟩
  | material =>
    have hread : (readProperties Material.properties (readWithin (t :: u :: more).length) >>=
      fun properties => pure (Expr.material t.span properties)) (u :: more) =
        .ok (first, between) :=
      hprimary
    obtain ⟨properties, _, hblock, -⟩ := exists_of_bind_eq_ok hread
    exact ⟨.leftBrace, by decide, is_of_expect_bind hblock⟩
  | modifier =>
    have hread : readModifier (readWithin (t :: u :: more).length) t.span (u :: more) =
      .ok (first, between) := hprimary
    exact ⟨.dot, by decide, is_of_expect_bind hread⟩
  | group =>
    have hread : readGroup t.span (u :: more) = .ok (first, between) := hprimary
    exact ⟨.leftBracket, by decide, is_of_expect_bind hread⟩
  | int | float | string | bool =>
    have hread : readConversion (readWithin (t :: u :: more).length) t.span t.lexeme (u :: more) =
      .ok (first, between) := hprimary
    exact ⟨.leftParen, by decide, is_of_expect_bind hread⟩
  | _ => cases hprimary

/-- An expression is no run of names: a name that it begins with is all of it, or goes on with
neither a comma nor an equality sign. -/
theorem unnamed_of_read {e : Expr} (h : Expr.read ts = .ok (e, [])) : Unnamed ts := by
  rcases ts with _ | ⟨t, _ | ⟨u, more⟩⟩
  · cases h
  · exact ⟨t, [], rfl, .inr nofun⟩
  refine ⟨t, u :: more, rfl, ?_⟩
  cases hkind : t.kind with
  | ident name =>
    refine .inr fun u' hu' => ?_
    obtain rfl : u = u' := by simpa using hu'
    -- A sign that ends an expression would be left over behind the name.
    have hends (hu : EndsBefore 4 (u :: more)) : False := by
      have hread := (readsAs_reference (n := 4) (Token.ident?_eq_some_iff.2 hkind) .nil).read hu
      rw [List.singleton_append, h] at hread
      cases hread
    refine ⟨Bool.eq_false_iff.2 fun hequal => hends ?_,
      Bool.eq_false_iff.2 fun hcomma => hends (endsBefore_comma hcomma 4 more)⟩
    exact endsBefore_cons_of_is hequal (by decide) (by decide)
      (fun op _ => by cases op <;> decide) more
  | keyword word =>
    refine .inr fun u' hu' => ?_
    obtain rfl : u = u' := by simpa using hu'
    obtain ⟨sign, hsign, hu⟩ := sign_behind_word hkind h
    have hother : ∀ sign ∈ [Symbol.dot, .leftParen, .leftBrace, .leftBracket],
        (sign == .equal) = false ∧ (sign == .comma) = false := by decide
    rw [Token.is_eq_of_is hu, Token.is_eq_of_is hu]
    exact hother sign hsign
  | _ => exact .inl (by rw [Token.name?, hkind])

/-- What follows the values of an entry: a semicolon, the brace that closes the block, or a comma
and the keys of another entry. -/
inductive EndsValues (accepted : List String) : List Token → Prop
  | sign {t : Token} {sign : Symbol} {more : List Token} : sign ∈ [Symbol.semicolon, .rightBrace] →
      t.is sign = true → EndsValues accepted (t :: more)
  | entry {comma : Token} {more : List Token} {name : String} {names : List String} :
      comma.is .comma = true → entryNames? more = some (name :: names) → name ∈ accepted →
      EndsValues accepted (comma :: more)

theorem EndsValues.endsBefore (h : EndsValues accepted rest) : EndsBefore 4 rest := by
  cases h with
  | @sign t sign more hsign ht =>
    have hno : sign ≠ .dot ∧ sign ≠ .leftParen ∧ ∀ op : BinaryOp, sign ≠ op.symbol := by
      simp only [List.mem_cons, List.not_mem_nil, or_false] at hsign
      rcases hsign with rfl | rfl <;>
        exact ⟨by decide, by decide, fun op => by cases op <;> decide⟩
    exact endsBefore_cons_of_is ht hno.1 hno.2.1 (fun op _ => hno.2.2 op) more
  | entry hcomma _ _ => exact endsBefore_comma hcomma 4 _

theorem EndsValues.moreValues (h : EndsValues accepted rest) (value : Reader Expr) (n : Nat) :
    moreValues accepted value n rest = .ok ([], rest) := by
  cases h with
  | @sign t sign more hsign ht =>
    refine moreValues_of_head? fun t' ht' => ?_
    obtain rfl : t = t' := by simpa using ht'
    have hother : ∀ sign ∈ [Symbol.semicolon, .rightBrace], (sign == .comma) = false := by decide
    rw [Token.is_eq_of_is ht]
    exact hother sign hsign
  | @entry comma more name names hcomma hnames hname =>
    have hbegins : beginsEntry accepted more = true := by
      simp [beginsEntry, hnames, hname]
    cases n with
    | zero => rfl
    | succ n =>
      rw [Expr.moreValues, get_bind_apply]
      simp [hcomma, hbegins]

/-- Names up to an equality sign that begin no entry: the first of them is not accepted, but a later
one is. -/
def NoEntry (accepted : List String) (names : Option (List String)) : Prop :=
  ∀ run ∈ names, ∃ first more, run = first :: more ∧ first ∉ accepted ∧
    ∃ name ∈ more, name ∈ accepted

theorem beginsEntry_of_noEntry (h : NoEntry accepted (entryNames? ts)) :
    beginsEntry accepted ts = false := by
  unfold beginsEntry
  cases hrun : entryNames? ts with
  | none => rfl
  | some run =>
    obtain ⟨first, more, rfl, hfirst, name, hname, haccepts⟩ := h run hrun
    simp only [Bool.or_eq_false_iff, Bool.not_eq_false', List.any_cons, Bool.or_eq_true,
      List.any_eq_true, List.contains_iff_mem]
    exact ⟨by simpa using hfirst, .inr ⟨name, hname, haccepts⟩⟩

/-- A value that is no accepted name alone, in front of a sign: if that is a comma, what follows it
names an accepted one. -/
theorem noEntry_of_value {v : EntryValue} {u : Token} {later : List Token} (hv : ¬v.IsBare accepted)
    (hequal : u.is .equal = false) (hlater : u.is .comma = true →
      ∀ run ∈ entryNames? later, ∃ name ∈ run, name ∈ accepted) :
    NoEntry accepted (entryNames? (v.tokens ++ u :: later)) := by
  have hnone {ts : List Token} (h : entryNames? ts = none) : NoEntry accepted (entryNames? ts) := by
    rw [h]
    nofun
  obtain ⟨t, more, htokens, hfirst⟩ := unnamed_of_read v.reads
  rw [htokens]
  cases more with
  | cons t' more => exact hnone (entryNames?_cons_of_head? hfirst)
  | nil =>
    rw [List.singleton_append]
    cases hname : t.name? with
    | none => exact hnone (entryNames?_cons_of_head? (.inl hname))
    | some name =>
      cases hcomma : u.is .comma with
      | false =>
        refine hnone (entryNames?_cons_of_head? (.inr fun t' ht' => ?_))
        obtain rfl : u = t' := by simpa using ht'
        exact ⟨hequal, hcomma⟩
      | true =>
        intro run hrun
        simp only [entryNames?, hname, hequal, hcomma, Bool.false_eq_true, if_false, if_true,
          Option.mem_def, Option.map_eq_some_iff] at hrun
        obtain ⟨names, hnames, rfl⟩ := hrun
        have hunaccepted : name ∉ accepted := fun hmem => hv ⟨t, name, htokens, hname, hmem⟩
        exact ⟨name, names, rfl, hunaccepted, hlater hcomma names hnames⟩

/-- Values that are no accepted names alone begin no entry, whether or not an entry follows them. -/
theorem noEntry_of_values {values : List EntryValue} (hne : values ≠ [])
    (hunbare : ∀ v ∈ values, ¬v.IsBare accepted) (hts : Separated (values.map (·.tokens)) ts)
    (hends : EndsValues accepted rest) : NoEntry accepted (entryNames? (ts ++ rest)) := by
  induction values generalizing ts with
  | nil => exact absurd rfl hne
  | cons v values ih =>
    obtain ⟨hv, hvalues⟩ := List.forall_mem_cons.1 hunbare
    cases values with
    | nil =>
      cases hts
      cases hends with
      | @sign u sign more hsign hu =>
        have hother : ∀ sign ∈ [Symbol.semicolon, .rightBrace],
            (sign == .equal) = false ∧ (sign == .comma) = false := by decide
        obtain ⟨hequal, hcomma⟩ := hother sign hsign
        rw [← Token.is_eq_of_is hu] at hequal hcomma
        exact noEntry_of_value hv hequal fun h => absurd (hcomma.symm.trans h) Bool.false_ne_true
      | @entry comma more name names hcomma hnames hname =>
        refine noEntry_of_value hv (by rw [Token.is_eq_of_is hcomma]; rfl) fun _ run hrun => ?_
        rw [hnames] at hrun
        cases hrun
        exact ⟨name, List.mem_cons_self .., hname⟩
    | cons next values =>
      cases hts with
      | @cons comma _ _ us _ hcomma hus =>
        rw [List.append_assoc, List.cons_append]
        refine noEntry_of_value hv (by rw [Token.is_eq_of_is hcomma]; rfl) fun _ run hrun => ?_
        obtain ⟨first, more, rfl, -, name, hname, haccepts⟩ :=
          ih (List.cons_ne_nil _ _) hvalues hus run hrun
        exact ⟨name, List.mem_cons_of_mem _ hname, haccepts⟩

/-- The first of the values is read, and the others after their commas. -/
theorem exists_first_of_values {v : EntryValue} {values : List EntryValue}
    (hunbare : ∀ v ∈ values, ¬v.IsBare accepted)
    (hts : Separated ((v :: values).map (·.tokens)) ts) (hends : EndsValues accepted rest) :
    ∃ between, Expr.read (ts ++ rest) = .ok (v.expr, between) ∧
      between.length ≤ (ts ++ rest).length ∧ ∀ n, between.length ≤ n →
        moreValues accepted Expr.read n between = .ok (values.map (·.expr), rest) := by
  induction values generalizing v ts with
  | nil =>
    cases hts
    exact ⟨rest, reads_of_read v.reads rest hends.endsBefore, by simp,
      fun n _ => hends.moreValues Expr.read n⟩
  | cons next values ih =>
    obtain ⟨-, hvalues⟩ := List.forall_mem_cons.1 hunbare
    cases hts with
    | @cons comma _ _ us _ hcomma hus =>
      obtain ⟨between, hread, hlength, hafter⟩ := ih hvalues hus
      have hbegins := beginsEntry_of_noEntry
        (noEntry_of_values (List.cons_ne_nil _ _) hunbare hus hends)
      rw [List.append_assoc, List.cons_append]
      refine ⟨comma :: (us ++ rest), reads_of_read v.reads _ (endsBefore_comma hcomma 4 _), by simp,
        fun n hn => ?_⟩
      obtain ⟨n, rfl⟩ : ∃ k, n = k + 1 := ⟨n - 1, by simp at hn; omega⟩
      rw [moreValues, get_bind_apply]
      dsimp only
      rw [if_pos (by simp [hcomma, hbegins]), set_bind_apply, bind_of_ok _ hread,
        bind_of_ok _ (hafter n (by simp at hn hlength; omega)), pure_apply]
      rfl

/-! ### Entries are read as they are written -/

theorem is_of_name? {t : Token} {name : String} (h : t.name? = some name) (sign : Symbol) :
    t.is sign = false := by
  unfold Token.name? at h
  unfold Token.is
  cases hkind : t.kind with
  | symbol other => simp [hkind] at h
  | _ => rfl

theorem entryNames?_of_keys {keys : List (Key accepted)} {equal : Token} (hne : keys ≠ [])
    (hts : Separated (keys.map fun key => [key.token]) ts) (hequal : equal.is .equal = true)
    (more : List Token) : entryNames? (ts ++ equal :: more) = some (keys.map (·.name)) := by
  induction keys generalizing ts with
  | nil => exact absurd rfl hne
  | cons key keys ih =>
    cases keys with
    | nil =>
      cases hts
      simp [entryNames?, key.named, hequal]
    | cons next keys =>
      cases hts with
      | @cons comma _ _ us _ hcomma hus =>
        have hno : comma.is .equal = false := by rw [Token.is_eq_of_is hcomma]; rfl
        have hlater := ih (List.cons_ne_nil _ _) hus
        simp only [List.cons_append, List.nil_append, entryNames?, key.named, hno, hcomma,
          Bool.false_eq_true, if_false, if_true, hlater, Option.map_some, List.map_cons]

theorem exists_of_keys {key : Key accepted} {keys : List (Key accepted)} {equal : Token}
    (hts : Separated ((key :: keys).map fun key => [key.token]) ts)
    (hequal : equal.is .equal = true) (wanted wanted' : String) (more : List Token) :
    ∃ between, name wanted (ts ++ equal :: more) = .ok (key.name, between) ∧
      moreAfterCommas (name wanted') between = .ok (keys.map (·.name), equal :: more) := by
  have hreads (keys : List (Key accepted)) : List.Forall₂ (Reads (fun _ => True) (name wanted'))
      (keys.map fun key => [key.token]) (keys.map (·.name)) := by
    induction keys with
    | nil => exact .nil
    | cons key keys ih => exact .cons (fun rest _ => expectSome_cons _ key.named rest) ih
  have hcomma : ∀ t ∈ (equal :: more).head?, t.is .comma = false := by
    simp [Token.is_eq_of_is hequal]
  obtain ⟨between, hfirst, -, hafter⟩ := exists_first_of_separated hts (hreads (key :: keys))
    (fun _ _ _ => trivial) trivial hcomma
  obtain ⟨t, htokens, ht⟩ := name_eq_ok hfirst
  refine ⟨between, ?_, ?_⟩
  · rw [htokens]
    exact expectSome_cons wanted ht between
  · rw [moreAfterCommas, get_bind_apply]
    exact hafter _ (Nat.le_refl _)

namespace Entry
variable {entry : Entry accepted}

/-- An entry begins with its first key. -/
theorem Written.exists_cons (h : entry.Written ts) : ∃ more, ts = entry.key.token :: more := by
  obtain ⟨front, equal, back, hfront, -, -, rfl⟩ := h
  unfold keys at hfront
  cases hkeys : entry.moreKeys with
  | nil =>
    rw [hkeys] at hfront
    cases hfront
    exact ⟨_, rfl⟩
  | cons next more =>
    rw [hkeys] at hfront
    cases hfront with
    | cons => exact ⟨_, by simp; rfl⟩

theorem Written.entryNames? (h : entry.Written ts) (more : List Token) :
    Expr.entryNames? (ts ++ more) = some (entry.keys.map (·.name)) := by
  obtain ⟨front, equal, back, hfront, hequal, -, rfl⟩ := h
  rw [List.append_assoc, List.cons_append]
  exact entryNames?_of_keys (List.cons_ne_nil _ _) hfront hequal _

theorem pairEntry_eq (span : Option Span) (entry : Entry accepted) :
    pairEntry span (entry.keys.map (·.name)) (entry.values.map (·.expr)) rest =
      .ok (entry.properties, rest) := by
  unfold pairEntry properties
  rw [List.length_map, List.length_map]
  split
  next => rw [List.zipWith_map, pure_apply]
  next hlength =>
    have hkeys : entry.moreKeys = [] := by
      refine entry.arity.resolve_left fun hsame => hlength ?_
      rw [keys, values, List.length_cons, List.length_cons, hsame]
    rw [keys, hkeys]
    rfl

theorem Written.readEntry (h : entry.Written ts) (hends : EndsValues accepted rest) :
    Expr.readEntry accepted Expr.read (ts ++ rest) = .ok (entry.properties, rest) := by
  obtain ⟨more, hmore⟩ := h.exists_cons
  obtain ⟨front, equal, back, hfront, hequal, hback, rfl⟩ := h
  obtain ⟨between, hkey, hkeys⟩ := exists_of_keys hfront hequal "expected property name"
    "expected property name after ','" (back ++ rest)
  obtain ⟨between', hvalue, -, hvalues⟩ := exists_first_of_values entry.unbare hback hends
  have hhead (sign : Symbol) : ∀ t ∈ (front ++ equal :: back ++ rest).head?, t.is sign = false := by
    rw [hmore]
    simpa using is_of_name? entry.key.named sign
  rw [Expr.readEntry, bind_of_ok _ (accept_of_head? (hhead _)), if_neg Bool.false_ne_true,
    bind_of_ok _ (accept_of_head? (hhead _)), if_neg Bool.false_ne_true, peek?_bind_apply,
    List.append_assoc, List.cons_append, bind_of_ok _ hkey, bind_of_ok _ hkeys,
    bind_of_ok _ (expect_cons_of_is _ hequal _), bind_of_ok _ hvalue, get_bind_apply,
    bind_of_ok _ (hvalues _ (Nat.le_refl _))]
  exact pairEntry_eq _ entry

end Entry

section
variable {entry : Entry accepted} {entries : List (Entry accepted)} {signs : List Symbol}
  {opening closing : Token}

theorem Block.exists_written (h : Block signs (entry :: entries) ts) :
    ∃ us more, ts = us ++ more ∧ entry.Written us := by
  cases h with
  | last hentry => exact ⟨ts, [], (List.append_nil ts).symm, hentry⟩
  | more hentry _ _ _ => exact ⟨_, _, rfl, hentry⟩

/-- What separates two entries ends the values of the first. -/
theorem endsValues_of_separator {separator : Token} {sign : Symbol}
    (hsign : sign = .comma ∨ sign = .semicolon) (hseparator : separator.is sign = true)
    (h : Block signs (entry :: entries) ts) (more : List Token) :
    EndsValues accepted (separator :: (ts ++ more)) := by
  rcases hsign with rfl | rfl
  · obtain ⟨us, others, rfl, hentry⟩ := h.exists_written
    rw [List.append_assoc]
    exact .entry hseparator (hentry.entryNames? _) entry.key.accepts
  · exact .sign (List.mem_cons_self ..) hseparator

/-- Each entry is a round of the loop, and so is each separator, which yields nothing. -/
theorem rounds_of_block (h : Block signs entries ts)
    (hsigns : ∀ sign ∈ signs, sign = .comma ∨ sign = .semicolon)
    (hclosing : closing.is .rightBrace = true) (rest : List Token) :
    ∃ lists, lists.flatten = (entries.map Entry.properties).flatten ∧
      Rounds (fun t => !t.is .rightBrace) (readEntry accepted Expr.read) (ts ++
        closing :: rest) lists (closing :: rest) := by
  have hstop : ∀ t ∈ (closing :: rest).head?, (!t.is .rightBrace) = false := by simpa using hclosing
  have hgoes (key : Key accepted) : (!key.token.is .rightBrace) = true := by
    rw [is_of_name? key.named]
    rfl
  -- Whatever sign stands behind an entry, the next round begins at the name of a key or at the
  -- bracket.
  induction h with
  | nil => exact ⟨[], rfl, .done hstop⟩
  | @last entry ts hentry =>
    obtain ⟨more, rfl⟩ := hentry.exists_cons
    have hread := hentry.readEntry
      (.sign (by decide) hclosing : EndsValues accepted (closing :: rest))
    exact ⟨[entry.properties], rfl, .round (hgoes _) hread (by simp) (.done hstop)⟩
  | @more entry next entries ts us separator sign hentry hsign hseparator hblock ih =>
    obtain ⟨lists, hlists, hrounds⟩ := ih
    obtain ⟨more, rfl⟩ := hentry.exists_cons
    have hread := hentry.readEntry
      (endsValues_of_separator (hsigns sign hsign) hseparator hblock (closing :: rest))
    have hskip : readEntry accepted Expr.read (separator :: (us ++ closing :: rest)) =
        .ok ([], us ++ closing :: rest) := by
      rw [readEntry]
      rcases hsigns sign hsign with rfl | rfl
      · rw [bind_of_ok _ (accept_cons_of_is hseparator _), if_pos rfl, pure_apply]
      · have hno : ∀ t ∈ (separator :: (us ++ closing :: rest)).head?, t.is .comma = false := by
          simp [Token.is_eq_of_is hseparator]
        rw [bind_of_ok _ (accept_of_head? hno), if_neg Bool.false_ne_true,
          bind_of_ok _ (accept_cons_of_is hseparator _), if_pos rfl, pure_apply]
    have hloops : (!separator.is .rightBrace) = true := by
      rcases hsigns sign hsign with rfl | rfl <;> rw [Token.is_eq_of_is hseparator] <;> rfl
    rw [List.append_assoc, List.cons_append]
    exact ⟨entry.properties :: [] :: lists, by simp [hlists],
      .round (hgoes _) hread (by simp) (.round hloops hskip (by simp) hrounds)⟩

/-- Whatever signs separate the entries of a block, it is read as their properties in order. -/
theorem readProperties_of_block (h : Block signs entries ts)
    (hsigns : ∀ sign ∈ signs, sign = .comma ∨ sign = .semicolon)
    (hopening : opening.is .leftBrace = true) (hclosing : closing.is .rightBrace = true)
    (rest : List Token) : readProperties accepted Expr.read (opening :: (ts ++ closing :: rest)) =
      .ok ((entries.map Entry.properties).flatten, rest) := by
  obtain ⟨lists, hlists, hrounds⟩ := rounds_of_block h hsigns hclosing rest
  rw [readProperties, bind_of_ok _ (expect_cons_of_is _ hopening _),
    bind_of_ok _ hrounds.untilClosed,
    bind_of_ok _ (expect_cons_of_is _ hclosing _), hlists, pure_apply]

/-- The separator does not matter. Entries with commas between them are read as the same properties
as entries with semicolons between them: one for each key where there are as many keys as values,
and one list where a key has several values. The keys may be any accepted names, and the values any
expressions but accepted names alone behind the first. -/
theorem commas_and_semicolons_read_alike (entries : List (Entry accepted))
    (hcommas : Block [.comma] entries ts) (hsemicolons : Block [.semicolon] entries us)
    (hopening : opening.is .leftBrace = true) (hclosing : closing.is .rightBrace = true)
    (rest : List Token) :
    readProperties accepted Expr.read (opening :: (ts ++ closing :: rest)) =
      .ok ((entries.map Entry.properties).flatten, rest) ∧
    readProperties accepted Expr.read (opening :: (us ++ closing :: rest)) =
      .ok ((entries.map Entry.properties).flatten, rest) :=
  ⟨readProperties_of_block hcommas (by simp) hopening hclosing rest,
    readProperties_of_block hsemicolons (by simp) hopening hclosing rest⟩

/-- Two lists of values, the first of which ends in a name. -/
theorem axis_ends_before_angle :
    let word (text : String) := Token.ofKind (.ident text)
    let sign (s : Symbol) := Token.ofKind (.symbol s)
    let number (x : Float) := Token.ofKind (.number x)
    let block (separator : Symbol) := sign .leftBrace ::
      ([word "axis", sign .equal, word "X", sign .comma, word "Y", sign separator, word "angle",
        sign .equal, number 90, sign .comma, number 45] ++ [sign .rightBrace])
    let properties : List (Property Expr) :=
      [.list "axis" [.reference .zero "X" [], .reference .zero "Y" []],
        .list "angle" [.number .zero 90, .number .zero 45]]
    readProperties ["axis", "angle"] Expr.read (block .comma) = .ok (properties, []) ∧
    readProperties ["axis", "angle"] Expr.read (block .semicolon) = .ok (properties, []) := by
  intro word sign number block properties
  let value (text : String) : EntryValue := ⟨[word text], .reference .zero text [], rfl⟩
  let amount (x : Float) : EntryValue := ⟨[number x], .number .zero x, rfl⟩
  have hname : ∀ v ∈ [value "Y"], ¬v.IsBare ["axis", "angle"] := by
    rintro v hv ⟨t, name, htokens, hname, hmem⟩
    obtain rfl := List.mem_singleton.1 hv
    cases htokens
    cases hname
    exact absurd hmem (by decide)
  have hamount : ∀ v ∈ [amount 45], ¬v.IsBare ["axis", "angle"] := by
    rintro v hv ⟨t, name, htokens, hname, -⟩
    obtain rfl := List.mem_singleton.1 hv
    cases htokens
    cases hname
  let axis : Entry ["axis", "angle"] :=
    ⟨⟨word "axis", "axis", rfl, by decide⟩, [], value "X", [value "Y"], hname, .inr rfl⟩
  let angle : Entry ["axis", "angle"] :=
    ⟨⟨word "angle", "angle", rfl, by decide⟩, [], amount 90, [amount 45], hamount, .inr rfl⟩
  have haxis : axis.Written [word "axis", sign .equal, word "X", sign .comma, word "Y"] :=
    ⟨_, sign .equal, _, .single _, rfl, .cons _ rfl (.single _), rfl⟩
  have hangle : angle.Written [word "angle", sign .equal, number 90, sign .comma, number 45] :=
    ⟨_, sign .equal, _, .single _, rfl, .cons _ rfl (.single _), rfl⟩
  exact commas_and_semicolons_read_alike [axis, angle]
    (.more haxis (List.mem_cons_self ..) rfl (.last hangle))
    (.more haxis (List.mem_cons_self ..) rfl (.last hangle)) rfl rfl []

end

end SceneScript.Expr
