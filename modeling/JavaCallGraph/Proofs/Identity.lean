import JavaCallGraph.MethodId
import Mathlib.Data.List.TakeWhile

/-!
# Written identities can be read back

A method identity is written with separators between its parts, and reading it is lax: blank parts
are dropped and the blanks around a part are trimmed.  So an identity comes back from its written
form only when its parts are *names*, which is what `IsName` says: not empty, without separators and
without a blank at either end.

* `MethodId.parse?_canonical` — an identity made of names is read back unchanged;
* `MethodId.eq_of_canonical_eq` — hence two such identities with one written form are the same;
* `MethodId.parse?_canonical_of_parse?` — an identity that was read from a text is made of names;
* `MethodId.ReadsNormally` — the main statement: which texts can be read, that reading comes to the
  written form of what is read, and that this form tells identities apart.

The written form is read from the left.  The one step of that is `MethodId.parts_append`: a name and
the separator after it give one part, whatever follows.
-/

set_option autoImplicit false

namespace JavaCallGraph

open Text

/-! ## Names -/

/-- A text that can stand as one part of a written identity. -/
structure IsName (s : String) : Prop where
  ne_empty : s ≠ ""
  noSeparator : ∀ c ∈ s.toList, MethodId.isSeparator c = false
  head : ∀ c ∈ s.toList.head?, isBlank c = false
  last : ∀ c ∈ s.toList.getLast?, isBlank c = false

theorem isName_iff {s : String} :
    IsName s ↔ s ≠ "" ∧ (s.toList.all fun c => !MethodId.isSeparator c) = true ∧
      (s.toList.head?.all fun c => !isBlank c) = true ∧
        (s.toList.getLast?.all fun c => !isBlank c) = true := by
  simp only [List.all_eq_true, Option.all_eq_true, Bool.not_eq_true']
  exact ⟨fun h => ⟨h.1, h.2, h.3, h.4⟩, fun ⟨h₁, h₂, h₃, h₄⟩ => ⟨h₁, h₂, h₃, h₄⟩⟩

instance (s : String) : Decidable (IsName s) := decidable_of_iff _ isName_iff.symm

namespace Text

theorem dropWhile_eq_self {p : Char → Bool} {cs : List Char} (h : ∀ c ∈ cs.head?, p c = false) :
    cs.dropWhile p = cs := by
  cases cs with
  | nil => rfl
  | cons c cs => rw [List.dropWhile_cons_of_neg (by simpa using h c)]

theorem trim_eq_self {s : String} (hh : ∀ c ∈ s.toList.head?, isBlank c = false)
    (hl : ∀ c ∈ s.toList.getLast?, isBlank c = false) : trim s = s := by
  have hr : ∀ c ∈ s.toList.reverse.head?, isBlank c = false := by
    rwa [List.head?_reverse]
  rw [trim, trimChars, dropWhile_eq_self hh, dropWhile_eq_self hr, List.reverse_reverse,
    String.ofList_toList]

theorem cut_append_cons {p : Char → Bool} {w : List Char} (hw : ∀ c ∈ w, p c = false) {c : Char}
    (hc : p c = true) (rest : List Char) : cut p (w ++ c :: rest) = w :: cut p rest := by
  induction w with
  | nil => rw [List.nil_append, cut, if_pos hc]
  | cons d w ih =>
    have hd : ¬p d = true := by simp [hw d List.mem_cons_self]
    rw [List.cons_append, cut, if_neg hd, ih fun e he => hw e (List.mem_cons_of_mem _ he)]

/-- No piece has a separator in it. -/
theorem not_of_mem_cut {p : Char → Bool} {cs w : List Char} (hw : w ∈ cut p cs) :
    ∀ c ∈ w, p c = false := by
  induction cs generalizing w with
  | nil =>
    rw [List.mem_singleton.mp hw]
    exact nofun
  | cons d cs ih =>
    rw [cut] at hw
    split at hw
    · rcases List.mem_cons.mp hw with rfl | hw
      · exact nofun
      · exact ih hw
    · next hd =>
      rw [Bool.not_eq_true] at hd
      cases hcut : cut p cs with
      | nil => exact absurd hcut (cut_ne_nil p cs)
      | cons v vs =>
        rw [hcut] at hw ih
        rcases List.mem_cons.mp hw with rfl | hw
        · intro c hc
          rcases List.mem_cons.mp hc with rfl | hc
          · exact hd
          · exact ih List.mem_cons_self c hc
        · exact ih (List.mem_cons_of_mem _ hw)

theorem not_of_mem_head?_dropWhile {p : Char → Bool} {cs : List Char} {c : Char}
    (hc : c ∈ (cs.dropWhile p).head?) : p c = false := by
  have hfirst := List.head?_dropWhile_not p cs
  rw [Option.mem_def] at hc
  rwa [hc] at hfirst

theorem mem_getLast?_of_dropWhile {p : Char → Bool} {cs : List Char} {c : Char}
    (hc : c ∈ (cs.dropWhile p).getLast?) : c ∈ cs.getLast? := by
  obtain ⟨before, hbefore⟩ := List.dropWhile_suffix (l := cs) p
  rw [Option.mem_def] at hc ⊢
  rw [← hbefore, List.getLast?_append, hc, Option.some_or]

theorem mem_of_mem_trimChars {cs : List Char} {c : Char} (hc : c ∈ trimChars cs) : c ∈ cs := by
  rw [trimChars, List.mem_reverse] at hc
  have hc := (List.dropWhile_sublist _).mem hc
  rw [List.mem_reverse] at hc
  exact (List.dropWhile_sublist _).mem hc

theorem not_isBlank_head?_trimChars {cs : List Char} {c : Char} (hc : c ∈ (trimChars cs).head?) :
    isBlank c = false := by
  rw [trimChars, List.head?_reverse] at hc
  have hfirst := mem_getLast?_of_dropWhile hc
  rw [List.getLast?_reverse] at hfirst
  exact not_of_mem_head?_dropWhile hfirst

theorem not_isBlank_getLast?_trimChars {cs : List Char} {c : Char}
    (hc : c ∈ (trimChars cs).getLast?) : isBlank c = false := by
  rw [trimChars, List.getLast?_reverse] at hc
  exact not_of_mem_head?_dropWhile hc

/-- Trimming leaves nothing of a text exactly if there are only blanks in it. -/
theorem trim_eq_empty_iff {s : String} : trim s = "" ↔ ∀ c ∈ s.toList, isBlank c = true := by
  rw [← String.toList_eq_nil_iff, trim, String.toList_ofList, trimChars, List.reverse_eq_nil_iff,
    List.dropWhile_eq_nil_iff]
  constructor
  · intro h
    rw [← List.dropWhile_eq_nil_iff]
    -- What is left in front of the last blanks would begin with a character that is not blank.
    cases hrest : s.toList.dropWhile isBlank with
    | nil => rfl
    | cons d ds =>
      have hd : isBlank d = false := not_of_mem_head?_dropWhile (by rw [hrest]; rfl)
      rw [hrest] at h
      exact absurd (h d (List.mem_reverse.mpr List.mem_cons_self)) (by rw [hd]; decide)
  · intro h c hc
    rw [List.mem_reverse] at hc
    exact h c ((List.dropWhile_sublist _).mem hc)

end Text

namespace IsName

variable {s t : String}

theorem trim_eq (h : IsName s) : trim s = s := trim_eq_self h.head h.last

theorem isEmpty_eq (h : IsName s) : s.isEmpty = false := by
  rw [Bool.eq_false_iff, ne_eq, String.isEmpty_iff]
  exact h.ne_empty

theorem toList_ne_nil (h : IsName s) : s.toList ≠ [] := by
  rw [ne_eq, String.toList_eq_nil_iff]
  exact h.ne_empty

/-- Only the outer ends of two joined texts have to be free of blanks. -/
theorem append (hs : IsName s) (ht : IsName t) : IsName (s ++ t) where
  ne_empty h := by
    have hnil : s.toList ++ t.toList = [] := by rw [← String.toList_append, h]; rfl
    exact hs.toList_ne_nil (List.append_eq_nil_iff.mp hnil).1
  noSeparator c hc := by
    rw [String.toList_append, List.mem_append] at hc
    exact hc.elim (hs.noSeparator c) (ht.noSeparator c)
  head c hc := by
    obtain ⟨d, hd⟩ := Option.isSome_iff_exists.mp (List.isSome_head?.mpr hs.toList_ne_nil)
    rw [String.toList_append, List.head?_append, hd, Option.some_or, ← hd] at hc
    exact hs.head c hc
  last c hc := by
    obtain ⟨d, hd⟩ := Option.isSome_iff_exists.mp (List.getLast?_isSome.mpr ht.toList_ne_nil)
    rw [String.toList_append, List.getLast?_append, hd, Option.some_or, ← hd] at hc
    exact ht.last c hc

/-- A qualified name. -/
theorem dotted (hs : IsName s) (ht : IsName t) : IsName (s ++ "." ++ t) :=
  (hs.append (by decide)).append ht

/-- The name of an array type. -/
theorem array (hs : IsName s) : IsName (s ++ "[]") := hs.append (by decide)

end IsName

/-- A name is a text without separators that is not empty and that trimming does not change. -/
theorem isName_iff_trim {s : String} :
    IsName s ↔ s ≠ "" ∧ trim s = s ∧ ∀ c ∈ s.toList, MethodId.isSeparator c = false := by
  constructor
  · exact fun h => ⟨h.ne_empty, h.trim_eq, h.noSeparator⟩
  · rintro ⟨hne, htrim, hsep⟩
    have hchars : trimChars s.toList = s.toList := by
      rw [← String.toList_ofList (l := trimChars s.toList)]
      exact congrArg String.toList htrim
    refine ⟨hne, hsep, fun c hc => ?_, fun c hc => ?_⟩
    · rw [← hchars] at hc
      exact not_isBlank_head?_trimChars hc
    · rw [← hchars] at hc
      exact not_isBlank_getLast?_trimChars hc

/-! ## Reading an identity -/

namespace MethodId

/-- Every part of the identity is a name. -/
structure IsNamed (id : MethodId) : Prop where
  declaringType : IsName id.declaringType
  name : IsName id.name
  params : ∀ p ∈ id.params, IsName p

/-- **A name and the separator after it are one part.** -/
theorem parts_append {s : String} (hs : IsName s) {sep : String} {c : Char}
    (hsep : sep.toList = [c]) (hc : isSeparator c = true) (rest : String) :
    parts (s ++ sep ++ rest) = s :: parts rest := by
  have hcut : cut isSeparator (s ++ sep ++ rest).toList
      = s.toList :: cut isSeparator rest.toList := by
    rw [String.toList_append, String.toList_append, hsep, List.append_assoc]
    exact cut_append_cons hs.noSeparator hc _
  rw [parts, pieces, hcut, List.map_cons, List.map_cons, String.ofList_toList, hs.trim_eq,
    List.filter_cons_of_pos (by simp [hs.isEmpty_eq])]
  rfl

theorem parts_empty : parts "" = [] := by decide

theorem parts_joinWith {ps : List String} (h : ∀ p ∈ ps, IsName p) :
    parts (joinWith "," ps ++ ")") = ps := by
  induction ps with
  | nil => decide
  | cons p ps ih =>
    have hp := h p List.mem_cons_self
    cases ps with
    | nil =>
      have hlast : parts (p ++ ")" ++ "") = p :: parts "" := parts_append hp rfl rfl ""
      rw [String.append_empty] at hlast
      rw [joinWith, hlast, parts_empty]
    | cons q ps =>
      rw [joinWith, String.append_assoc, parts_append hp rfl rfl,
        ih fun r hr => h r (List.mem_cons_of_mem _ hr)]

theorem parts_canonical {id : MethodId} (h : id.IsNamed) :
    parts id.canonical = id.declaringType :: id.name :: id.params := by
  have hsplit : id.canonical
      = id.declaringType ++ "#" ++ (id.name ++ "(" ++ (joinWith "," id.params ++ ")")) := by
    simp only [canonical, String.append_assoc]
  rw [hsplit, parts_append h.declaringType rfl rfl, parts_append h.name rfl rfl,
    parts_joinWith h.params]

/-- **An identity made of names is read back from its written form.** -/
theorem parse?_canonical {id : MethodId} (h : id.IsNamed) : parse? id.canonical = some id := by
  rw [parse?, parts_canonical h]

theorem isName_of_mem_parts {text p : String} (hp : p ∈ parts text) : IsName p := by
  obtain ⟨hp, hne⟩ := List.mem_filter.mp hp
  obtain ⟨piece, hpiece, rfl⟩ := List.mem_map.mp hp
  obtain ⟨w, hw, rfl⟩ := List.mem_map.mp hpiece
  rw [Bool.not_eq_true', Bool.eq_false_iff, ne_eq, String.isEmpty_iff] at hne
  rw [trim, String.toList_ofList] at hne ⊢
  refine ⟨hne, fun c hc => ?_, fun c hc => ?_, fun c hc => ?_⟩
  · rw [String.toList_ofList] at hc
    exact not_of_mem_cut hw c (mem_of_mem_trimChars hc)
  · rw [String.toList_ofList] at hc
    exact not_isBlank_head?_trimChars hc
  · rw [String.toList_ofList] at hc
    exact not_isBlank_getLast?_trimChars hc

theorem isNamed_of_parse? {text : String} {id : MethodId} (h : parse? text = some id) :
    id.IsNamed := by
  have hnames : ∀ p ∈ parts text, IsName p := fun p hp => isName_of_mem_parts hp
  rw [parse?] at h
  split at h
  · next t n ps hparts =>
    rw [hparts] at hnames
    rw [← Option.some.inj h]
    refine ⟨hnames t List.mem_cons_self, hnames n ?_, fun p hp => hnames p ?_⟩
    · exact List.mem_cons_of_mem _ List.mem_cons_self
    · exact List.mem_cons_of_mem _ (List.mem_cons_of_mem _ hp)
  · exact absurd h (by simp)

/-- **An identity that was read is read back from its written form**, whatever it was read from. -/
theorem parse?_canonical_of_parse? {text : String} {id : MethodId} (h : parse? text = some id) :
    parse? id.canonical = some id := parse?_canonical (isNamed_of_parse? h)

/-- **The written form determines the identity.** -/
theorem eq_of_canonical_eq {a b : MethodId} (ha : a.IsNamed) (hb : b.IsNamed)
    (h : a.canonical = b.canonical) : a = b := by
  have hab : some a = some b := by rw [← parse?_canonical ha, ← parse?_canonical hb, h]
  exact Option.some.inj hab

/-! ## What can be read -/

/-- The pieces of a text between separators, without those that have only blanks. -/
def nonBlankPieces (text : String) : List String :=
  (pieces isSeparator text).filter fun p => p.toList.any fun c => !isBlank c

theorem parts_eq_map_trim (text : String) : parts text = (nonBlankPieces text).map trim := by
  have hkept : ∀ p : String, (!(trim p).isEmpty) = p.toList.any fun c => !isBlank c := fun p => by
    rw [Bool.eq_iff_iff, Bool.not_eq_true', Bool.eq_false_iff, ne_eq, String.isEmpty_iff,
      trim_eq_empty_iff, List.any_eq_true]
    simp only [Bool.not_eq_true', not_forall, exists_prop, Bool.not_eq_true]
  rw [parts, nonBlankPieces, List.filter_map]
  exact congrArg _ (List.filter_congr fun p _ => hkept p)

theorem parse?_eq_some_iff {text : String} {id : MethodId} :
    parse? text = some id ↔
      (nonBlankPieces text).map trim = id.declaringType :: id.name :: id.params := by
  rw [parse?, parts_eq_map_trim]
  constructor
  · intro h
    split at h
    · next t n ps hparts => rw [hparts, ← Option.some.inj h]
    · exact absurd h (by simp)
  · intro h
    rw [h]

theorem parse?_eq_none_iff {text : String} :
    parse? text = none ↔ (nonBlankPieces text).length < 2 := by
  rw [← List.length_map trim, parse?, parts_eq_map_trim]
  match (nonBlankPieces text).map trim with
  | [] | [_] => simp
  | _ :: _ :: _ => simp

theorem parse_eq_ok_iff {text : String} {id : MethodId} :
    parse text = .ok id ↔ parse? text = some id := by
  rw [parse]
  cases parse? text <;> simp

theorem parse_eq_error_iff {text : String} {e : Error} :
    parse text = .error e ↔ parse? text = none ∧ e = .invalidMethodId text := by
  rw [parse]
  cases parse? text <;> simp [eq_comm]

theorem compare_eq_iff {a b : MethodId} : compare a b = .eq ↔ a.canonical = b.canonical :=
  Std.compare_eq_iff_eq

/-- **What reading a text comes to**, and that it comes to a normal form. -/
structure ReadsNormally (text : String) : Prop where
  /-- It fails, with the text in its message, exactly if fewer than two pieces are not blank. -/
  fails : ∀ e, parse text = .error e ↔
    (nonBlankPieces text).length < 2 ∧ e = .invalidMethodId text
  /-- Else the parts of the identity are the pieces that are not blank, trimmed. -/
  reads : ∀ id, parse text = .ok id ↔
    (nonBlankPieces text).map trim = id.declaringType :: id.name :: id.params
  /-- What was read is read again from its own written form. -/
  again : ∀ id, parse text = .ok id → parse id.canonical = .ok id
  /-- Two identities that were read are the same if they are written, or compare, alike. -/
  faithful : ∀ id, parse text = .ok id → ∀ other id', parse other = .ok id' →
    (id.canonical = id'.canonical ↔ id = id') ∧ (compare id id' = .eq ↔ id = id')

/-- **The written form is a normal form.**  Every text is read as that form or not at all, and an
identity is read back from it exactly if its parts are names. -/
theorem written_form_is_normal :
    (∀ text, ReadsNormally text) ∧
      ∀ id : MethodId, parse id.canonical = .ok id ↔
        ∀ p ∈ id.declaringType :: id.name :: id.params,
          p ≠ "" ∧ trim p = p ∧ ∀ c ∈ p.toList, isSeparator c = false := by
  refine ⟨fun text => ⟨fun e => ?_, fun id => ?_, fun id hid => ?_, fun id hid other id' hid' => ?_⟩,
    fun id => ?_⟩
  · rw [parse_eq_error_iff, parse?_eq_none_iff]
  · rw [parse_eq_ok_iff, parse?_eq_some_iff]
  · rw [parse_eq_ok_iff] at hid ⊢
    exact parse?_canonical_of_parse? hid
  · have hiff : id.canonical = id'.canonical ↔ id = id' :=
      ⟨eq_of_canonical_eq (isNamed_of_parse? (parse_eq_ok_iff.mp hid))
        (isNamed_of_parse? (parse_eq_ok_iff.mp hid')), congrArg canonical⟩
    exact ⟨hiff, compare_eq_iff.trans hiff⟩
  · simp only [parse_eq_ok_iff, ← isName_iff_trim, List.forall_mem_cons]
    exact ⟨fun h => let hn := isNamed_of_parse? h; ⟨hn.declaringType, hn.name, hn.params⟩,
      fun ⟨ht, hn, hps⟩ => parse?_canonical ⟨ht, hn, hps⟩⟩

/-- Blanks and a missing parameter do not come into the normal form. -/
theorem written_form_is_normal_sample :
    ∃ id, parse "  demo.A # go ( int ,  long[] , ) " = .ok id ∧
      id.canonical = "demo.A#go(int,long[])" ∧ parse id.canonical = .ok id := by
  have hread : parse "  demo.A # go ( int ,  long[] , ) " = .ok ⟨"demo.A", "go", ["int", "long[]"]⟩ :=
    parse_eq_ok_iff.mpr (by decide +kernel)
  exact ⟨_, hread, by decide +kernel, (written_form_is_normal.1 _).again _ hread⟩

end MethodId

end JavaCallGraph
