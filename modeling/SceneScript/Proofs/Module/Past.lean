import SceneScript.Proofs.Module.Depth
import SceneScript.Proofs.Module.History

namespace SceneScript

/-! ### Reports of stand-ins -/

namespace Notice

/-- Whether a notice reports that a program stands in for a module, whichever module it is from. -/
def reportsFallback : Notice → Bool
  | error _ => false
  | warning _ concern =>
    match concern with
    | .fallback _ => true
    | _ => false
  | missingModule .. => false
  | forwarded _ notice => notice.reportsFallback

def withoutFallbacks (notices : List Notice) : List Notice := notices.filter (!·.reportsFallback)

theorem withoutFallbacks_append (first second : List Notice) :
    withoutFallbacks (first ++ second) = withoutFallbacks first ++ withoutFallbacks second :=
  List.filter_append ..

theorem withoutFallbacks_forwarded (source : String) (notices : List Notice) :
    withoutFallbacks (notices.map (.forwarded source)) =
      (withoutFallbacks notices).map (.forwarded source) := by
  rw [withoutFallbacks, withoutFallbacks, List.filter_map]
  rfl

/-- The second list is the first one, perhaps without some of its reports of stand-ins. -/
structure Spares (longer shorter : List Notice) : Prop where
  sublist : shorter.Sublist longer
  others : withoutFallbacks longer = withoutFallbacks shorter

theorem Spares.refl (notices : List Notice) : Spares notices notices := ⟨.refl _, rfl⟩

theorem Spares.append {longer shorter more less : List Notice} (h : Spares longer shorter)
    (h' : Spares more less) : Spares (longer ++ more) (shorter ++ less) where
  sublist := h.sublist.append h'.sublist
  others := by rw [withoutFallbacks_append, withoutFallbacks_append, h.others, h'.others]

theorem Spares.forwarded (source : String) {longer shorter : List Notice}
    (h : Spares longer shorter) :
    Spares (longer.map (.forwarded source)) (shorter.map (.forwarded source)) where
  sublist := h.sublist.map _
  others := by rw [withoutFallbacks_forwarded, withoutFallbacks_forwarded, h.others]

/-- Where no stand-in is reported, there is none to spare. -/
theorem Spares.eq {longer shorter : List Notice} (h : Spares longer shorter)
    (hnone : ∀ n ∈ longer, n.reportsFallback = false) : shorter = longer := by
  have hlonger : withoutFallbacks longer = longer :=
    List.filter_eq_self.2 fun n hn => by rw [hnone n hn]; rfl
  have hshorter : withoutFallbacks shorter = shorter :=
    List.filter_eq_self.2 fun n hn => by rw [hnone n (h.sublist.subset hn)]; rfl
  rw [← hlonger, ← hshorter, h.others]

end Notice
open Notice (withoutFallbacks Spares)

def Result.withoutFallbacks (r : Result) : Result :=
  { r with notices := Notice.withoutFallbacks r.notices }

/-- Two results of one program, the second perhaps without some of the reports of stand-ins. -/
structure Result.Spares (r r' : Result) : Prop where
  scene : r.scene = r'.scene
  logs : r.logs = r'.logs
  notices : Notice.Spares r.notices r'.notices
  exports : r.exports = r'.exports
  store : r.store = r'.store

theorem Result.Spares.refl (r : Result) : r.Spares r := ⟨rfl, rfl, .refl _, rfl, rfl⟩

theorem Result.Spares.withoutFallbacks_eq {r r' : Result} (h : r.Spares r') :
    r.withoutFallbacks = r'.withoutFallbacks := by
  rw [withoutFallbacks, withoutFallbacks, mk.injEq]
  exact ⟨h.scene, h.logs, h.notices.others, h.exports, h.store⟩

namespace Module

/-! ### Compiles that begin alike -/

/-- Two compiles are at the same point: with one store and one stack, and each with a cache of the
right texts, of which the second has more. -/
structure Loading.Alike (setting : Setting) (s t : Loading) : Prop where
  store : s.store = t.store
  stack : s.stack = t.stack
  left : s.cache.Mirrors setting.config setting.remote
  right : t.cache.Mirrors setting.config setting.remote
  within : ∀ address, t.cache.texts.get? address = none → s.cache.texts.get? address = none

/-- Two ends of a step: both stop for one reason, or they come to related values and are at the same
point again. -/
inductive SameEnd {α : Type} (setting : Setting) (S : α → α → Prop) :
    Except Abort (α × Loading) → Except Abort (α × Loading) → Prop
  | stop (abort : Abort) : SameEnd setting S (.error abort) (.error abort)
  | go {a b : α} {s t : Loading} : S a b → s.Alike setting t →
      SameEnd setting S (.ok (a, s)) (.ok (b, t))

def Agree {α : Type} (setting : Setting) (S : α → α → Prop) (x y : Load α) : Prop :=
  ∀ s t, s.Alike setting t → SameEnd setting S (x s) (y t)

section Laws
variable {α β : Type} {setting : Setting} {S : α → α → Prop} {T : β → β → Prop}

theorem Agree.pure {a b : α} (h : S a b) : Agree setting S (pure a) (pure b) :=
  fun _ _ halike => .go h halike

theorem Agree.bind {x y : Load α} {f g : α → Load β} (hx : Agree setting S x y)
    (hf : ∀ a b, S a b → Agree setting T (f a) (g b)) : Agree setting T (x >>= f) (y >>= g) := by
  intro s t halike
  have hends := hx s t halike
  rcases hs : x s with abort | ⟨a, s'⟩ <;> rcases ht : y t with abort' | ⟨b, t'⟩ <;>
    rw [hs, ht] at hends <;> cases hends
  · rw [Load.bind_apply_of_error hs, Load.bind_apply_of_error ht]
    exact .stop abort
  · rename_i hab halike'
    rw [Load.bind_apply_of_ok hs, Load.bind_apply_of_ok ht]
    exact hf a b hab s' t' halike'

/-- What is done with the values alone keeps two ends the same. -/
theorem SameEnd.map {e e' : Except Abort (α × Loading)} (h : SameEnd setting S e e') {f g : α → β}
    (hfg : ∀ a b, S a b → T (f a) (g b)) :
    SameEnd setting T (e.map fun x => (f x.1, x.2)) (e'.map fun x => (g x.1, x.2)) := by
  cases h with
  | stop abort => exact .stop abort
  | go hab halike => exact .go (hfg _ _ hab) halike

theorem agree_getStore : Agree setting (fun s t => s.store = t.store) get get :=
  fun _ _ halike => .go halike.store halike

/-- A change of the stack or the store that depends on nothing else. -/
theorem agree_modify {f : Loading → Loading} (hstore : ∀ s t, s.store = t.store →
      (f s).store = (f t).store) (hstack : ∀ s t, s.stack = t.stack → (f s).stack = (f t).stack)
    (hcache : ∀ s, (f s).cache = s.cache) :
    Agree setting (fun _ _ => True) (modify f : Load PUnit) (modify f) := by
  intro s t halike
  refine .go trivial ⟨hstore s t halike.store, hstack s t halike.stack, ?_, ?_, ?_⟩
  · exact (hcache s).symm ▸ halike.left
  · exact (hcache t).symm ▸ halike.right
  · rw [hcache, hcache]
    exact halike.within

end Laws

section Steps
variable {setting : Setting} (hsteady : setting.remote.Steady)
include hsteady

/-- What steps for an import come to alike: one failure, or the same with reports of stand-ins that
the second compile may spare. -/
def SameLoad {β : Type} (l m : Except Diagnostic (β × List Notice)) : Prop :=
  (∃ d, l = .error d ∧ m = .error d) ∨
    ∃ b longer shorter, l = .ok (b, longer) ∧ m = .ok (b, shorter) ∧ Spares longer shorter

/-- The report of a stand-in, which is made if the address is not in the cache and has no text. -/
def standIns (setting : Setting) (cache : Cache) (address : String) (span : Span) : List Notice :=
  match cache.texts.get? address, setting.remote.fetch 0 address with
  | none, .error reason => [.warning span.line (.fallback (.fetchFailed address reason))]
  | _, _ => []

theorem standIns_of_fetchText {address text : String} {span : Span} {notices : List Notice}
    {state after : Loading}
    (h : fetchText setting address span state = .ok (.ok (text, notices), after)) :
    notices = standIns setting state.cache address span := by
  unfold standIns
  rcases fetchText_cases h with ⟨_, hcached, heq, -⟩ |
    ⟨hnone, ⟨_, hfetch, heq, -⟩ | ⟨reason, hfetch, -, heq, -⟩ | ⟨_, -, -, heq, -⟩⟩ <;> cases heq
  · rw [hcached]
  · rw [hsteady] at hfetch
    rw [hnone, hfetch]
  · rw [hsteady] at hfetch
    rw [hnone, hfetch]

/-- A text that cannot be had is missing for the reason that the first request gives. -/
theorem error_of_fetchText {address : String} {span : Span} {d : Diagnostic} {state after : Loading}
    (h : fetchText setting address span state = .ok (.error d, after)) :
    ∃ reason, setting.remote.fetch 0 address = .error reason ∧
      d = .placed (.fetchFailed address reason) span := by
  rcases fetchText_cases h with ⟨_, -, heq, -⟩ |
    ⟨-, ⟨_, -, heq, -⟩ | ⟨_, -, -, heq, -⟩ | ⟨reason, hfetch, -, heq, -⟩⟩ <;> cases heq
  exact ⟨reason, hsteady _ address ▸ hfetch, rfl⟩

omit hsteady in
/-- A text that is fetched is in the cache afterwards, and no other one is added. -/
theorem get?_eq_none_of_fetchText {address other : String} {span : Span} {state after : Loading}
    {fetched : Except Diagnostic (String × List Notice)}
    (h : fetchText setting address span state = .ok (fetched, after)) :
    after.cache.texts.get? other = none ↔ state.cache.texts.get? other = none ∧
      (other = address → fetched.toOption = none) := by
  rcases fetchText_cases h with ⟨text, hcached, rfl, rfl⟩ |
    ⟨-, ⟨text, -, rfl, rfl⟩ | ⟨reason, -, -, rfl, rfl⟩ | ⟨reason, -, -, rfl, rfl⟩⟩
  · refine ⟨fun hnone => ⟨hnone, ?_⟩, And.left⟩
    rintro rfl
    rw [hcached] at hnone
    cases hnone
  · by_cases heq : other = address <;> simp [Cache.insert, Table.get?_insert, Except.toOption, heq]
  · by_cases heq : other = address <;> simp [Cache.insert, Table.get?_insert, Except.toOption, heq]
  · exact ⟨fun hnone => ⟨hnone, fun _ => rfl⟩, And.left⟩

theorem agree_fetchText (address : String) (span : Span) :
    Agree setting SameLoad (fetchText setting address span) (fetchText setting address span) := by
  intro s t halike
  rcases hs : fetchText setting address span s with abort | ⟨f, s'⟩
  · exact absurd hs (fetchText_ne_error address abort)
  rcases ht : fetchText setting address span t with abort | ⟨g, t'⟩
  · exact absurd ht (fetchText_ne_error address abort)
  have hstore : s'.store = t'.store := by
    rw [(fetchText_frame hs).1, (fetchText_frame ht).1, halike.store]
  have hstack : s'.stack = t'.stack := by
    rw [(fetchText_frame hs).2, (fetchText_frame ht).2, halike.stack]
  -- Both are the text that the address stands for, or both are without.
  have htexts : f.toOption.map (·.1) = g.toOption.map (·.1) := by
    rw [← text?_of_fetchText hsteady halike.left hs, text?_of_fetchText hsteady halike.right ht]
  have hwithin : ∀ other, t'.cache.texts.get? other = none → s'.cache.texts.get? other = none := by
    intro other hnone
    obtain ⟨hbefore, hfailed⟩ := (get?_eq_none_of_fetchText ht).1 hnone
    refine (get?_eq_none_of_fetchText hs).2 ⟨halike.within other hbefore, fun heq => ?_⟩
    rw [hfailed heq, Option.map_none, Option.map_eq_none_iff] at htexts
    exact htexts
  refine .go ?_ ⟨hstore, hstack, keptByFetch_mirrors hsteady _ _ _ _ _ hs halike.left,
    keptByFetch_mirrors hsteady _ _ _ _ _ ht halike.right, hwithin⟩
  rcases f with d | ⟨text, notices⟩ <;> rcases g with d' | ⟨text', notices'⟩ <;> cases htexts
  · obtain ⟨reason, hfetch, rfl⟩ := error_of_fetchText hsteady hs
    obtain ⟨reason', hfetch', rfl⟩ := error_of_fetchText hsteady ht
    rw [hfetch] at hfetch'
    cases hfetch'
    exact .inl ⟨_, rfl, rfl⟩
  · refine .inr ⟨text, notices, notices', rfl, rfl, ?_⟩
    rw [standIns_of_fetchText hsteady hs, standIns_of_fetchText hsteady ht]
    unfold standIns
    cases hcached : t.cache.texts.get? address with
    | none =>
      rw [halike.within address hcached]
      exact .refl _
    | some text =>
      split
      · exact ⟨List.nil_sublist _, rfl⟩
      · exact .refl []

omit hsteady in
theorem SameLoad.map {β γ : Type} {l m : Except Diagnostic (β × List Notice)} (h : SameLoad l m)
    (g : β → γ) : SameLoad (l.map (Prod.map g id)) (m.map (Prod.map g id)) := by
  rcases h with ⟨d, rfl, rfl⟩ | ⟨b, longer, shorter, rfl, rfl, hspares⟩
  · exact .inl ⟨d, rfl, rfl⟩
  · exact .inr ⟨g b, longer, shorter, rfl, rfl, hspares⟩

def locatedAs (located : Except Diagnostic (String × String × List Notice)) :
    Except Diagnostic ((String × String) × List Notice) :=
  located.map fun (key, text, notices) => ((key, text), notices)

theorem agree_locate (source : String) (span : Span) :
    Agree setting (fun l m => SameLoad (locatedAs l) (locatedAs m)) (locate setting source span)
      (locate setting source span) := by
  intro s t halike
  have hfound : ∀ key text, SameLoad (locatedAs (.ok (key, text, [])))
    (locatedAs (.ok (key, text, []))) :=
    fun key text => .inr ⟨(key, text), [], [], rfl, rfl, .refl []⟩
  have hfailed : ∀ d, SameLoad (locatedAs (.error d)) (locatedAs (.error d)) :=
    fun d => .inl ⟨d, rfl, rfl⟩
  cases haddress : isAddress source with
  | true =>
    cases hcycle : cycle? s.stack source with
    | some chain =>
      rw [locate_address_of_cycle haddress hcycle,
        locate_address_of_cycle haddress (halike.stack ▸ hcycle)]
      exact .go (hfailed _) halike
    | none =>
      rw [locate_address haddress hcycle, locate_address haddress (halike.stack ▸ hcycle)]
      refine (agree_fetchText hsteady source span s t halike).map fun f g hsame => ?_
      have hlocated := hsame.map fun text => (source, text)
      rcases f with d | ⟨text, notices⟩ <;> rcases g with d' | ⟨text', notices'⟩ <;> exact hlocated
  | false =>
    cases hresolve : setting.config.naming.resolve? source setting.files with
    | none =>
      rw [locate_missing haddress hresolve, locate_missing haddress hresolve]
      exact .go (hfailed _) halike
    | some found =>
      cases hcycle : cycle? s.stack found.1 with
      | some chain =>
        rw [locate_file_of_cycle haddress hresolve hcycle,
          locate_file_of_cycle haddress hresolve (halike.stack ▸ hcycle)]
        exact .go (hfailed _) halike
      | none =>
        rw [locate_file haddress hresolve hcycle,
          locate_file haddress hresolve (halike.stack ▸ hcycle)]
        exact .go (hfound _ _) halike

omit hsteady in
theorem agree_addModule (exports : Exports) :
    Agree setting Eq (addModule exports) (addModule exports) := by
  intro s t halike
  rw [addModule, addModule, halike.store]
  exact .go rfl ⟨rfl, halike.stack, halike.left, halike.right, halike.within⟩

variable {compile compile' : UnitCompiler}
  (hcompile : ∀ key source, Agree setting Result.Spares (compile key source) (compile' key source))
include hcompile

theorem agree_loadModule (source : String) (span : Span) :
    Agree setting (fun l m => l.1 = m.1 ∧ Spares l.2 m.2) (loadModule setting compile source span)
      (loadModule setting compile' source span) := by
  unfold loadModule
  cases setting.libraries.get? source with
  | some id => exact .pure ⟨rfl, .refl []⟩
  | none =>
    refine .bind (agree_locate hsteady source span) fun located located' hlocated => ?_
    rcases located with d | ⟨key, text, longer⟩ <;>
      rcases located' with d' | ⟨key', text', shorter⟩ <;>
      rcases hlocated with ⟨d, heq, heq'⟩ | ⟨found, _, _, heq, heq', hspares⟩ <;> cases heq <;>
      cases heq'
    · exact .pure ⟨rfl, .refl []⟩
    · refine .bind (hcompile key text) fun r r' hresult => ?_
      rw [hresult.exports]
      refine .bind (agree_addModule r'.exports) fun id id' hid => .pure ⟨by rw [hid], ?_⟩
      exact hspares.append (hresult.notices.forwarded source)

theorem agree_resolveImports (imports : List Import) (table : Table Value)
    {longer shorter : List Notice} (h : Spares longer shorter) :
    Agree setting (fun p q => p.1 = q.1 ∧ Spares p.2 q.2)
      (resolveImports setting compile imports table longer)
      (resolveImports setting compile' imports table shorter) := by
  induction imports generalizing table longer shorter with
  | nil => exact .pure ⟨rfl, h⟩
  | cons i more ih =>
    rw [resolveImports, resolveImports]
    refine .bind (agree_loadModule hsteady hcompile i.source i.span)
      fun loaded loaded' hloaded => ?_
    obtain ⟨outcome, reported⟩ := loaded
    obtain ⟨outcome', reported'⟩ := loaded'
    obtain ⟨rfl, hreported⟩ := hloaded
    cases outcome with
    | error d => exact ih table ((h.append hreported).append (.refl _))
    | ok id =>
      refine .bind agree_getStore fun s t hstore => ?_
      dsimp only
      rw [hstore]
      exact ih _ ((h.append hreported).append (.refl _))

omit hsteady hcompile in
theorem agree_runProgram (p : Program) (table : Table Value) :
    Agree setting Eq (runProgram p table) (runProgram p table) := by
  intro s t halike
  rw [runProgram, runProgram, halike.store]
  cases p.run table t.store with
  | error stop => exact .stop _
  | ok result => exact .go rfl ⟨rfl, halike.stack, halike.left, halike.right, halike.within⟩

theorem agree_compileWith (key source : String) :
    Agree setting Result.Spares (compileWith setting compile key source)
      (compileWith setting compile' key source) := by
  unfold compileWith
  cases Program.ofSource source with
  | error d => exact .pure (.refl _)
  | ok p =>
    refine .bind (agree_modify (fun _ _ => id) (fun _ _ h => by simp [h]) fun _ => rfl)
      fun _ _ _ => ?_
    refine .bind (agree_resolveImports hsteady hcompile _ _ (.refl []))
      fun resolved resolved' h => ?_
    obtain ⟨table, longer⟩ := resolved
    obtain ⟨table', shorter⟩ := resolved'
    obtain ⟨rfl, hspares⟩ := h
    refine .bind (agree_modify (fun _ _ => id) (fun _ _ h => by simp [h]) fun _ => rfl)
      fun _ _ _ => ?_
    refine .bind (agree_runProgram p table) fun result result' h => .pure ?_
    obtain rfl : result = result' := h
    exact ⟨rfl, rfl, hspares.append (.refl _), rfl, rfl⟩

end Steps

/-- A compile comes to the same end with any cache of the right texts. -/
theorem agree_compileUnit {setting : Setting} (hsteady : setting.remote.Steady) (depth : Nat)
    (key source : String) :
    Agree setting Result.Spares (compileUnit setting depth key source)
      (compileUnit setting depth key source) := by
  -- The larger cache may hold what the smaller one asks for; both come to the same text.
  induction depth generalizing key source with
  | zero => exact fun _ _ _ => .stop .tooDeep
  | succ depth ih => exact agree_compileWith hsteady ih key source

/-! ### Loaders -/

namespace Loader
variable {config : Config} {remote : Remote} {l : Loader}

/-- A compile of a new loader and one of a loader with a past, nested to the same bound. -/
theorem Reached.compileWithin_eq_new (hremote : remote.Steady) (hl : l.Reached config remote)
    (depth : Nat) (name source : String) (files : Table String) :
    (l.compileWithin depth name source files).map (·.1.withoutFallbacks) =
      ((Loader.new config remote).compileWithin depth name source files).map
        (·.1.withoutFallbacks) := by
  obtain rfl : l.config = config := hl.config_eq
  obtain rfl : l.remote = remote := hl.remote_eq
  have hsetting : (Loader.new l.config l.remote).setting files = l.setting files := rfl
  have halike : ((Loader.new l.config l.remote).rootCall name source).before.Alike (l.setting files)
      (l.rootCall name source).before :=
    ⟨rfl, rfl, Cache.mirrors_empty _ _, hl.mirrors hremote, fun _ _ => rfl⟩
  have hsteady : (l.setting files).remote.Steady := hremote
  have hends := agree_compileUnit hsteady depth name source _ _ halike
  rw [compileWithin_eq, compileWithin_eq, hsetting]
  rcases hs : compileUnit (l.setting files) depth name source
      ((Loader.new l.config l.remote).rootCall name source).before with abort | ⟨r, s⟩ <;>
  rcases ht : compileUnit (l.setting files) depth name source (l.rootCall name source).before with
    abort' | ⟨r', t⟩ <;>
  rw [hs, ht] at hends <;> cases hends
  · rfl
  · rename_i hresult _
    exact congrArg Except.ok hresult.withoutFallbacks_eq.symm

/-- The past of a loader does not show. A compile that any compiles went before ends like that of a
new loader: with no result for the same reason, or with the same scene, logs, exports and store, of
which the generators are a part, and with the same notices but for those that report stand-ins. -/
theorem compileRoot_eq_new (hremote : remote.Steady) (hl : l.Reached config remote)
    (name source : String) (files : Table String) :
    (∀ depth, (l.compileWithin depth name source files).map (·.1.withoutFallbacks) =
      ((Loader.new config remote).compileWithin depth name source files).map
        (·.1.withoutFallbacks)) ∧
    (remote.Finite → (l.compileRoot name source files).map (·.1.withoutFallbacks) =
      ((Loader.new config remote).compileRoot name source files).map (·.1.withoutFallbacks)) := by
  refine ⟨fun depth => hl.compileWithin_eq_new hremote depth name source files, fun hfinite => ?_⟩
  -- The two loaders choose different bounds, and a bound above both is as good as either.
  let depth := max (l.depthBound files) ((Loader.new config remote).depthBound files)
  have hleft : l.depthBound files ≤ depth := Nat.le_max_left _ _
  have hright : (Loader.new config remote).depthBound files ≤ depth := Nat.le_max_right _ _
  have hfinite' : l.remote.Finite := by rwa [hl.remote_eq]
  rw [← compileWithin_eq_compileRoot hfinite' name source hleft,
    ← compileWithin_eq_compileRoot hfinite name source hright]
  exact hl.compileWithin_eq_new hremote depth name source files

/-- A loader that has put a stand-in into its cache reports it no more; all else is the same. -/
theorem compileRoot_eq_new_after_fallback :
    let remote := Remote.ofTable .empty
    let source := "import \"http://gone\""
    ∃ r l r' l', (Loader.new .standard remote).compileRoot mainName source .empty = .ok (r, l) ∧
      l.compileRoot mainName source .empty = .ok (r', l') ∧
      r.notices.length = 1 ∧ r'.notices = [] ∧ r'.withoutFallbacks = r.withoutFallbacks := by
  intro remote source
  have hfirst : ((Loader.new .standard remote).compileRoot mainName source .empty).toOption.map
      (fun x => (x.1.notices.length, (x.2.compileRoot mainName source .empty).toOption.map
        fun y => y.1.notices)) = some (1, some []) := by decide +kernel
  obtain ⟨⟨r, l⟩, hcompile, hseen⟩ := exists_of_toOption_map hfirst
  obtain ⟨hlength, hagain⟩ := Prod.mk.inj hseen
  obtain ⟨⟨r', l'⟩, hcompile', hnone⟩ := exists_of_toOption_map hagain
  have hl : l.Reached .standard remote := Reached.new.compileRoot hcompile
  have hsame := (compileRoot_eq_new (Remote.steady_ofTable .empty) hl mainName source .empty).2
    (Remote.finite_ofTable .empty)
  rw [hcompile, hcompile'] at hsame
  exact ⟨r, l, r', l', hcompile, hcompile', hlength, hnone, Except.ok.inj hsame⟩

end Loader
end Module
end SceneScript
