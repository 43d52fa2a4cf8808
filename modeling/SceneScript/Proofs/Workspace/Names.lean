import SceneScript.Proofs.Text.Lines
import SceneScript.Workspace.Load

namespace SceneScript

namespace Text

def encode (text : List Char) : List UInt8 := text.flatMap String.utf8EncodeChar

theorem toByteArray_encode (text : List Char) : (encode text).toByteArray = text.utf8Encode := rfl

theorem encode_cons (c : Char) (text : List Char) :
    encode (c :: text) = String.utf8EncodeChar c ++ encode text := rfl

theorem firstChar?_append (c : Char) (rest : List UInt8) :
    firstChar? (String.utf8EncodeChar c ++ rest) = some c := by
  rw [firstChar?, List.toByteArray_append, ByteArray.utf8DecodeChar?_utf8EncodeChar_append]

theorem lossy_skip (skipped rest : List UInt8) :
    lossy skipped.length (skipped ++ rest) = lossy 0 rest := by
  induction skipped with
  | nil => rfl
  | cons byte skipped ih => rw [List.length_cons, List.cons_append, lossy, ih]

/-- Nothing is lost of a text. -/
theorem lossy_encode (text : List Char) : lossy 0 (encode text) = text := by
  induction text with
  | nil => rfl
  | cons c text ih =>
    have hfirst := firstChar?_append c (encode text)
    have hlength := String.length_utf8EncodeChar c
    rw [encode_cons]
    cases hbytes : String.utf8EncodeChar c with
    | nil => exact absurd hbytes String.utf8EncodeChar_ne_nil
    | cons byte others =>
      rw [hbytes, List.cons_append] at hfirst
      rw [hbytes, List.length_cons] at hlength
      have hrest : lossy (c.utf8Size - 1) (others ++ encode text) = text := by
        rw [← hlength, Nat.add_sub_cancel, lossy_skip, ih]
      simp only [List.cons_append, lossy, hfirst, hrest]

theorem lossy_ne_nil {bytes : List UInt8} (h : bytes ≠ []) : lossy 0 bytes ≠ [] := by
  obtain ⟨byte, rest, rfl⟩ := List.exists_cons_of_ne_nil h
  rw [lossy]
  split <;> exact List.cons_ne_nil _ _

end Text

namespace FileName

theorem bytes_ofString (text : String) : (ofString text).bytes = Text.encode text.toList := by
  rw [ofString, String.toUTF8_eq_toByteArray, ← String.utf8Encode_toList, ← Text.toByteArray_encode,
    List.toList_data_toByteArray]

theorem text?_eq_some_iff {name : FileName} {text : String} :
    name.text? = some text ↔ name = ofString text := by
  unfold text? String.fromUTF8?
  constructor
  · intro h
    split at h
    next hvalid =>
      cases h
      rw [ofString, String.toUTF8_eq_toByteArray]
      exact congrArg mk List.toList_data_toByteArray.symm
    next => cases h
  · rintro rfl
    have hbytes : (ofString text).bytes.toByteArray = text.toByteArray := by
      rw [bytes_ofString, Text.toByteArray_encode, String.utf8Encode_toList]
    rw [dif_pos (hbytes ▸ text.isValidUTF8)]
    exact congrArg some (String.toByteArray_inj.1 hbytes)

/-- A name that is the encoding of a text is written as that text. -/
theorem lossy_of_text? {name : FileName} {text : String} (h : name.text? = some text) :
    name.lossy = text := by
  rw [text?_eq_some_iff.1 h, lossy, bytes_ofString, Text.lossy_encode, String.ofList_toList]

theorem lossy_ne_empty {name : FileName} (h : name.bytes ≠ []) : name.lossy ≠ "" := by
  rw [lossy, Ne, ← String.toList_eq_nil_iff, String.toList_ofList]
  exact Text.lossy_ne_nil h

/-- The name goes on with a dot and the ending, and has no dot after that one. -/
def HasEnding (name : FileName) (ending : String) : Prop :=
  ∃ stem, name.bytes = stem ++ 0x2E :: (ofString ending).bytes ∧ 0x2E ∉ (ofString ending).bytes

theorem forall_bne_dot {bytes : List UInt8} (h : 0x2E ∉ bytes) :
    ∀ byte ∈ bytes.reverse, (byte != 0x2E) = true := by
  intro byte hbyte
  rw [bne_iff_ne]
  rintro rfl
  exact h (List.mem_reverse.1 hbyte)

theorem extension?_of_append {stem ending : List UInt8} (h : 0x2E ∉ ending) :
    extension? ⟨stem ++ 0x2E :: ending⟩ = if stem = [] then none else some ⟨ending⟩ := by
  rw [extension?, List.reverse_append, List.reverse_cons, List.append_assoc,
    List.dropWhile_append_of_pos (forall_bne_dot h),
      List.takeWhile_append_of_pos (forall_bne_dot h)]
  cases hstem : stem.reverse with
  | nil => simp [List.reverse_eq_nil_iff.1 hstem]
  | cons last before =>
    have hne : stem ≠ [] := by
      rintro rfl
      cases hstem
    simp [hne]

theorem extension?_of_not_mem {bytes : List UInt8} (h : 0x2E ∉ bytes) :
    extension? ⟨bytes⟩ = none := by
  rw [extension?, List.dropWhile_eq_nil_iff.2 (forall_bne_dot h)]

/-- A name of a dot and an ending is hidden. -/
theorem isHidden_of_dot (ending : String) :
    isHidden ⟨0x2E :: (ofString ending).bytes⟩ = true := by
  have hbytes : 0x2E :: (ofString ending).bytes = (ofString ("." ++ ending)).bytes := by
    rw [bytes_ofString, bytes_ofString, String.toList_append]
    rfl
  simp [isHidden, text?_eq_some_iff.2 (congrArg mk hbytes)]

/-- The extension of a visible name is what stands behind its last dot. -/
theorem extension?_eq_some_iff {name : FileName} {ending : String} (h : name.isHidden = false) :
    name.extension? = some (ofString ending) ↔ name.HasEnding ending := by
  constructor
  · intro hextension
    by_cases hdot : 0x2E ∈ name.bytes
    · obtain ⟨right, left, hbytes, hright⟩ := List.eq_append_cons_of_mem (List.mem_reverse.2 hdot)
      have hname : name = ⟨left.reverse ++ 0x2E :: right.reverse⟩ := by
        apply congrArg mk
        simpa using congrArg List.reverse hbytes
      have hending : 0x2E ∉ right.reverse := fun hmem => hright (List.mem_reverse.1 hmem)
      rw [hname, extension?_of_append hending] at hextension
      split at hextension
      next => cases hextension
      next =>
        have hright : right.reverse = (ofString ending).bytes :=
          congrArg bytes (Option.some.inj hextension)
        exact ⟨left.reverse, by rw [hname, hright], hright ▸ hending⟩
    · rw [show name = ⟨name.bytes⟩ from rfl, extension?_of_not_mem hdot] at hextension
      cases hextension
  · rintro ⟨stem, hbytes, hending⟩
    have hname : name = ⟨stem ++ 0x2E :: (ofString ending).bytes⟩ := congrArg mk hbytes
    have hstem : stem ≠ [] := by
      rintro rfl
      rw [hname, List.nil_append, isHidden_of_dot] at h
      cases h
    rw [hname, extension?_of_append hending, if_neg hstem]

/-- All that a walk can do with an entry. -/
theorem visit_cases (wanted : String) (name : FileName) (isDirectory : Bool) :
    (name.visit wanted isDirectory = .pass ∧ (name.isHidden = true ∨ isDirectory = false ∧
      name.extension? ≠ some (ofString wanted))) ∨
    (name.visit wanted isDirectory = .enter ∧ name.isHidden = false ∧ isDirectory = true) ∨
    (name.visit wanted isDirectory = .take ∧ name.isHidden = false ∧ isDirectory = false ∧
      name.extension? = some (ofString wanted)) := by
  unfold visit
  by_cases hhidden : name.isHidden = true
  · exact .inl ⟨if_pos hhidden, .inl hhidden⟩
  · rw [if_neg hhidden]
    rw [Bool.not_eq_true] at hhidden
    cases isDirectory with
    | true => exact .inr (.inl ⟨rfl, hhidden, rfl⟩)
    | false =>
      by_cases hextension : name.extension? = some (ofString wanted)
      · exact .inr (.inr ⟨if_pos hextension, hhidden, rfl, hextension⟩)
      · exact .inl ⟨if_neg hextension, .inr ⟨rfl, hextension⟩⟩

end FileName

def keyOf (path : List FileName) : String := "/".intercalate (path.map FileName.lossy)

/-- Names that can stand in paths: none is empty, and none has a slash. -/
def ArePathNames (path : List FileName) : Prop :=
  ∀ name ∈ path, name.bytes ≠ [] ∧ 0x2F ∉ name.bytes

theorem intercalate_eq_empty_iff {texts : List String} (h : ∀ text ∈ texts, text ≠ "") :
    "/".intercalate texts = "" ↔ texts = [] := by
  constructor
  · intro hempty
    by_contra hne
    obtain ⟨text, more, rfl⟩ := List.exists_cons_of_ne_nil hne
    apply h text (List.mem_cons_self ..)
    cases more with
    | nil => rwa [String.intercalate_singleton] at hempty
    | cons next more =>
      rw [String.intercalate_cons_cons, String.append_eq_empty_iff, String.append_eq_empty_iff]
        at hempty
      exact hempty.1.1
  · rintro rfl
    rfl

/-- Texts without slashes are the pieces between the slashes of what they are joined to. -/
theorem intercalate_injective {texts others : List String}
    (htexts : ∀ text ∈ texts, text ≠ "" ∧ '/' ∉ text.toList)
    (hothers : ∀ text ∈ others, text ≠ "" ∧ '/' ∉ text.toList)
    (h : "/".intercalate texts = "/".intercalate others) : texts = others := by
  have hnil {texts : List String} (htexts : ∀ text ∈ texts, text ≠ "" ∧ '/' ∉ text.toList) :
      "/".intercalate texts = "" ↔ texts = [] :=
    intercalate_eq_empty_iff fun text htext => (htexts text htext).1
  by_cases hempty : texts = []
  · subst hempty
    exact ((hnil hothers).1 h.symm).symm
  have hempty' : others ≠ [] := by
    rintro rfl
    exact hempty ((hnil htexts).1 h)
  have hsplit {texts : List String} (htexts : ∀ text ∈ texts, text ≠ "" ∧ '/' ∉ text.toList)
      (hne : texts ≠ []) :
      Text.split '/' ("/".intercalate texts).toList = texts.map String.toList := by
    rw [String.toList_intercalate]
    apply Text.split_intercalate (by simpa using hne)
    simpa using fun text htext => (htexts text htext).2
  have hlists : texts.map String.toList = others.map String.toList := by
    rw [← hsplit htexts hempty, ← hsplit hothers hempty', h]
  exact List.map_injective_iff.2 (fun _ _ => String.toList_inj.1) hlists

theorem keyOf_eq_empty_iff {path : List FileName} (h : ArePathNames path) :
    keyOf path = "" ↔ path = [] := by
  have hne : ∀ text ∈ path.map FileName.lossy, text ≠ "" := by
    simpa using fun name hname => FileName.lossy_ne_empty (h name hname).1
  rw [keyOf, intercalate_eq_empty_iff hne, List.map_eq_nil_iff]

/-- The text of a directory's path is continued by a slash and a name, and that of the root by the
name. -/
theorem pathIn_keyOf {path : List FileName} (h : ArePathNames path) (name : FileName) :
    Entry.pathIn (keyOf path) name.lossy = keyOf (path ++ [name]) := by
  unfold Entry.pathIn
  by_cases hpath : path = []
  · subst hpath
    rfl
  · have hmap : path.map FileName.lossy ≠ [] := mt List.map_eq_nil_iff.1 hpath
    rw [if_neg (mt (keyOf_eq_empty_iff h).1 hpath), keyOf, keyOf, List.map_append,
      List.map_singleton,
      String.intercalate_append_of_ne_nil hmap (List.cons_ne_nil _ _), String.intercalate_singleton]
    rfl

theorem FileName.ofString_lossy {name : FileName} (h : name.text?.isSome) :
    ofString name.lossy = name := by
  obtain ⟨text, htext⟩ := Option.isSome_iff_exists.1 h
  rw [lossy_of_text? htext, text?_eq_some_iff.1 htext]

theorem FileName.lossy_of_isSome {name : FileName} (h : name.text?.isSome)
    (hname : name.bytes ≠ [] ∧ 0x2F ∉ name.bytes) : name.lossy ≠ "" ∧ '/' ∉ name.lossy.toList := by
  refine ⟨lossy_ne_empty hname.1, fun hslash => hname.2 ?_⟩
  rw [← ofString_lossy h, bytes_ofString]
  exact List.mem_flatMap.2 ⟨'/', hslash, List.mem_singleton_self _⟩

/-- Paths whose names are the encodings of texts are told apart by their texts. -/
theorem keyOf_injective {path other : List FileName} (hpath : ArePathNames path)
    (hother : ArePathNames other) (htexts : ∀ name ∈ path, name.text?.isSome)
    (hothers : ∀ name ∈ other, name.text?.isSome) (h : keyOf path = keyOf other) :
      path = other := by
  have hsame : path.map FileName.lossy = other.map FileName.lossy := by
    refine intercalate_injective (List.forall_mem_map.2 ?_) (List.forall_mem_map.2 ?_) h
    · exact fun name hname => FileName.lossy_of_isSome (htexts name hname) (hpath name hname)
    · exact fun name hname => FileName.lossy_of_isSome (hothers name hname) (hother name hname)
  have hback {path : List FileName} (htexts : ∀ name ∈ path, name.text?.isSome) :
      (path.map FileName.lossy).map FileName.ofString = path :=
    calc (path.map FileName.lossy).map FileName.ofString
        = path.map (FileName.ofString ∘ FileName.lossy) := List.map_map
      _ = path.map id :=
          List.map_congr_left fun name hname => FileName.ofString_lossy (htexts name hname)
      _ = path := List.map_id path
  rw [← hback htexts, hsame, hback hothers]

end SceneScript
