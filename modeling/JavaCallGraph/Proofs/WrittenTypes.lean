import JavaCallGraph.Proofs.DottedNames
import JavaCallGraph.Syntax.Erasure
import JavaCallGraph.Syntax.Token

/-!
# The name in a written class type

A class type is written as identifiers with dots between them, each with annotations in front of it
and perhaps type arguments behind it, and with blanks between any two tokens.  `eraseGenerics` knows
nothing of that grammar: it takes out the words of the text that begin with `@`, counts the angle
brackets in the others, and keeps what stands outside of them.

* `ClassType` — the grammar, and `ClassType.tokens` the tokens of a class type, each with the blanks
  behind it.  `marks` is the text of tokens with a note on every character: whether it belongs to an
  annotation, and whether it stands inside type arguments.
* `SetApart` — the words of the text and the annotations fit together: the words that begin with `@`
  are those of annotations, at least outside type arguments.  Without annotations every text is like
  that (`setApart_of_unannotated`).
* `erase_written` — the main statement: then the erased text is the identifiers with dots between
  them.
* `erase_glued_sample` — it does not hold of all types: an annotation directly behind a dot stays.

The proof takes words and brackets apart.  `Leaves` says what the words make of a text, and `Reads`
what the brackets make of whatever is left; only the latter follows the grammar.
-/

set_option autoImplicit false

namespace JavaCallGraph.Syntax.Written

open Text

/-! ## The grammar -/

/-- Blanks between two tokens. -/
structure Gap where
  chars : List Char
  blank : chars.all isBlank = true

/-- An identifier and the blanks behind it. -/
structure Identifier where
  text : String
  word : text ≠ "" ∧ text.toList.all isWordPart = true
  gap : Gap

/-- An annotation and the blanks behind it. -/
structure Annot where
  /-- The name behind the `@`, with the blanks around it. -/
  name : String
  /-- What stands in the parentheses behind the name, if there are any. -/
  arguments : Option String
  gap : Gap

/-- A pair of square brackets, with annotations in front of it. -/
structure Dimension where
  annotations : List Annot
  inner : Gap
  gap : Gap

/-- The keyword in front of the bound of a wildcard. -/
inductive Bound where
  | upper
  | lower

/-- The letters of the keyword. -/
def Bound.word : Bound → String
  | upper => "extends"
  | lower => "super"

mutual

/-- **A class type**: a simple one, or a member of another class type, behind a dot. -/
inductive ClassType where
  | simple (type : SimpleType)
  | member (outer : ClassType) (dot : Gap) (type : SimpleType)

/-- An identifier with annotations in front of it, and perhaps with type arguments. -/
inductive SimpleType where
  | plain (annotations : List Annot) (name : Identifier)
  | generic (annotations : List Annot) (name : Identifier) (bracket : Gap)
      (arguments : Arguments)

/-- Type arguments, with commas between them, and the closing bracket. -/
inductive Arguments where
  | last (argument : Argument) (bracket : Gap)
  | more (argument : Argument) (comma : Gap) (rest : Arguments)

/-- A type argument. -/
inductive Argument where
  | reference (type : ReferenceType)
  | wildcard (annotations : List Annot) (mark : Gap)
  | bounded (annotations : List Annot) (mark : Gap) (keyword : Bound) (gap : Gap)
      (type : ReferenceType)

/-- A class type or an array type. -/
inductive ReferenceType where
  | classType (type : ClassType)
  | primitives (annotations : List Annot) (element : Primitive) (gap : Gap)
      (dimension : Dimension)
  | array (element : ReferenceType) (dimension : Dimension)

end

/-- The identifier of a simple type. -/
def SimpleType.name : SimpleType → String
  | plain _ i => i.text
  | generic _ i _ _ => i.text

/-- **The identifiers of a class type**, from the outside in. -/
def ClassType.names : ClassType → List String
  | simple t => [t.name]
  | member outer _ t => outer.names ++ [t.name]

/-! ## The tokens -/

/-- A character that is neither a blank nor one of those that erasing looks for. -/
def isPlain (c : Char) : Bool := !isBlank c && c != '@' && c != '<' && c != '>'

theorem isPlain_iff {c : Char} :
    isPlain c = true ↔ isBlank c = false ∧ c ≠ '@' ∧ c ≠ '<' ∧ c ≠ '>' := by
  simp [isPlain, and_assoc]

theorem of_all_isPlain {cs : List Char} (h : cs.all isPlain = true) :
    ∀ c ∈ cs, isBlank c = false ∧ c ≠ '@' ∧ c ≠ '<' ∧ c ≠ '>' :=
  fun c hc => isPlain_iff.mp (List.all_eq_true.mp h c hc)

/-- No blank is part of a word: it is one of twenty-five characters. -/
theorem isWordPart_of_isBlank {c : Char} (h : isBlank c = true) : isWordPart c = false := by
  have hall : ∀ n ∈ List.range' 0x09 5 ++ List.range' 0x2000 11 ++
      [0x20, 0x85, 0xA0, 0x1680, 0x2028, 0x2029, 0x202F, 0x205F, 0x3000],
      isWordPart (Char.ofNat n) = false := by decide +kernel
  rw [← Char.ofNat_toNat c]
  refine hall _ ?_
  simp only [isBlank, Bool.or_eq_true, Bool.and_eq_true, beq_iff_eq, decide_eq_true_eq] at h
  simp only [List.mem_append, List.mem_range'_1, List.mem_cons, List.not_mem_nil, or_false]
  omega

theorem isPlain_of_isWordPart {c : Char} (h : isWordPart c = true) : isPlain c = true := by
  refine isPlain_iff.mpr ⟨?_, ?_, ?_, ?_⟩
  · rw [Bool.eq_false_iff]
    exact fun hblank => absurd ((isWordPart_of_isBlank hblank).symm.trans h) (by decide)
  all_goals
    rintro rfl
    exact absurd h (by decide)

/-- A token of a class type and the blanks behind it.  Tokens are told apart by whether they stand
inside type arguments. -/
inductive Token where
  | annot (inside : Bool) (annot : Annot)
  | symbols (inside : Bool) (chars : List Char) (plain : chars.all isPlain = true) (gap : Gap)
  | opening (gap : Gap)
  | closing (gap : Gap)

def Identifier.token (inside : Bool) (i : Identifier) : Token :=
  .symbols inside i.text.toList (List.all_eq_true.mpr fun c hc =>
    isPlain_of_isWordPart (List.all_eq_true.mp i.word.2 c hc)) i.gap

def Bound.token (k : Bound) (gap : Gap) : Token :=
  .symbols true k.word.toList (by cases k <;> decide) gap

def Dimension.tokens (d : Dimension) : List Token :=
  d.annotations.map (.annot true) ++
    [.symbols true ['['] (by decide) d.inner, .symbols true [']'] (by decide) d.gap]

mutual

/-- **The tokens of a class type.** -/
def ClassType.tokens (inside : Bool) : ClassType → List Token
  | .simple t => t.tokens inside
  | .member outer dot t =>
    outer.tokens inside ++ .symbols inside ['.'] (by decide) dot :: t.tokens inside

def SimpleType.tokens (inside : Bool) : SimpleType → List Token
  | .plain as i => as.map (.annot inside) ++ [i.token inside]
  | .generic as i bracket arguments =>
    as.map (.annot inside) ++ i.token inside :: .opening bracket :: arguments.tokens

def Arguments.tokens : Arguments → List Token
  | .last a bracket => a.tokens ++ [.closing bracket]
  | .more a comma rest => a.tokens ++ .symbols true [','] (by decide) comma :: rest.tokens

def Argument.tokens : Argument → List Token
  | .reference t => t.tokens
  | .wildcard as gap => as.map (.annot true) ++ [.symbols true ['?'] (by decide) gap]
  | .bounded as gap keyword gap' t =>
    as.map (.annot true) ++
      .symbols true ['?'] (by decide) gap :: keyword.token gap' :: t.tokens

def ReferenceType.tokens : ReferenceType → List Token
  | .classType t => t.tokens true
  | .primitives as p gap d =>
    as.map (.annot true) ++
      .symbols true p.name.toList (by cases p <;> decide) gap :: d.tokens
  | .array t d => t.tokens ++ d.tokens

end

/-! ## The text -/

/-- A character of a class type. -/
structure Mark where
  char : Char
  /-- It stands inside type arguments. -/
  inside : Bool
  /-- It belongs to an annotation. -/
  isAnnot : Bool
  deriving DecidableEq

def mark (inside isAnnot : Bool) (cs : List Char) : List Mark :=
  cs.map fun c => ⟨c, inside, isAnnot⟩

/-- The characters of an annotation. -/
def Annot.chars (a : Annot) : List Char :=
  '@' :: a.name.toList ++
    match a.arguments with
    | none => []
    | some arguments => '(' :: arguments.toList ++ [')']

def Token.marks : Token → List Mark
  | annot inside a => mark inside true a.chars ++ mark inside false a.gap.chars
  | symbols inside cs _ gap => mark inside false cs ++ mark inside false gap.chars
  | opening gap => mark true false ['<'] ++ mark true false gap.chars
  | closing gap => mark true false ['>'] ++ mark true false gap.chars

/-- The characters of tokens, with what they belong to. -/
def marks (ts : List Token) : List Mark := ts.flatMap Token.marks

/-- **The text of a class type.** -/
def ClassType.text (t : ClassType) : String :=
  String.ofList ((marks (t.tokens false)).map Mark.char)

/-! ## Words and annotations -/

/-- The words of a text: what stands between two blanks. -/
def words (ms : List Mark) : List (List Mark) := ms.splitOnP fun m => isBlank m.char

/-- The word begins with `@`. -/
def beginsWithAt (w : List Mark) : Bool := (w.map Mark.char).head? == some '@'

/-- It makes no difference whether the character is taken out or not. -/
def Mark.Indifferent (m : Mark) : Prop := m.inside = true ∧ m.char ≠ '<' ∧ m.char ≠ '>'

/-- **Annotations are set apart in a text**: a word begins with `@` if it is of annotations, and does
not if it is of anything else.  Inside type arguments this may be as it likes, but for the brackets. -/
def SetApart (ms : List Mark) : Prop :=
  ∀ w ∈ words ms, ∀ m ∈ w, m.Indifferent ∨ m.isAnnot = beginsWithAt w

instance : DecidablePred Mark.Indifferent := fun m =>
  inferInstanceAs (Decidable (m.inside = true ∧ m.char ≠ '<' ∧ m.char ≠ '>'))

instance : DecidablePred SetApart := fun ms =>
  inferInstanceAs (Decidable
    (∀ w ∈ words ms, ∀ m ∈ w, m.Indifferent ∨ m.isAnnot = beginsWithAt w))

variable {ms ns ks w : List Mark} {m : Mark} {ts us : List Token}

theorem mem_mark {inside isAnnot : Bool} {cs : List Char} (hm : m ∈ mark inside isAnnot cs) :
    m.inside = inside ∧ m.isAnnot = isAnnot ∧ m.char ∈ cs := by
  obtain ⟨c, hc, rfl⟩ := List.mem_map.mp hm
  exact ⟨rfl, rfl, hc⟩

@[simp]
theorem marks_nil : marks [] = [] := rfl

@[simp]
theorem marks_cons (t : Token) (ts : List Token) : marks (t :: ts) = t.marks ++ marks ts := rfl

theorem marks_append (ts us : List Token) : marks (ts ++ us) = marks ts ++ marks us :=
  List.flatMap_append

/-- A text is a word, or a word, a blank and another text. -/
theorem word_induction {motive : List Mark → Prop}
    (word : ∀ w, (∀ m ∈ w, isBlank m.char = false) → motive w)
    (gap : ∀ w b ms, (∀ m ∈ w, isBlank m.char = false) → isBlank b.char = true → motive ms →
      motive (w ++ b :: ms)) (ms : List Mark) : motive ms := by
  -- On the length: what stands behind the first word is shorter, but no tail of the list.
  obtain ⟨k, hk⟩ : ∃ k, ms.length ≤ k := ⟨_, Nat.le_refl _⟩
  induction k generalizing ms with
  | zero =>
    rw [List.length_eq_zero_iff.mp (Nat.le_zero.mp hk)]
    exact word [] nofun
  | succ k ih =>
    have hw : ∀ m ∈ ms.takeWhile (fun m => !isBlank m.char), isBlank m.char = false :=
      fun m hm => by simpa using List.mem_takeWhile_imp hm
    have hsplit := List.takeWhile_append_dropWhile (p := fun m : Mark => !isBlank m.char) (l := ms)
    cases hrest : ms.dropWhile (fun m => !isBlank m.char) with
    | nil =>
      rw [hrest, List.append_nil] at hsplit
      rw [← hsplit]
      exact word _ hw
    | cons b rest =>
      have hb : isBlank b.char = true := by
        have hfirst := List.head?_dropWhile_not (fun m : Mark => !isBlank m.char) ms
        rw [hrest] at hfirst
        simpa using hfirst
      rw [hrest] at hsplit
      have hlen : rest.length ≤ k := by
        have := congrArg List.length hsplit
        simp only [List.length_append, List.length_cons] at this
        omega
      rw [← hsplit]
      exact gap _ b rest hw hb (ih rest hlen)

theorem words_of_word (hw : ∀ m ∈ w, isBlank m.char = false) : words w = [w] :=
  List.splitOnP_eq_singleton hw

theorem words_append_cons (hw : ∀ m ∈ w, isBlank m.char = false) (hm : isBlank m.char = true)
    (ms : List Mark) : words (w ++ m :: ms) = w :: words ms := by
  rw [words, List.splitOnP_append_cons (p := fun m : Mark => isBlank m.char) w ms hm]
  exact congrArg (· ++ words ms) (words_of_word hw)

theorem mem_of_mem_words (hw : w ∈ words ms) (hm : m ∈ w) : m ∈ ms := by
  induction ms using word_induction with
  | word v hv =>
    rw [words_of_word hv, List.mem_singleton] at hw
    exact hw ▸ hm
  | gap v b ms hv hb ih =>
    rw [words_append_cons hv hb, List.mem_cons] at hw
    rcases hw with rfl | hw
    · exact List.mem_append_left _ hm
    · exact List.mem_append_right _ (List.mem_cons_of_mem _ (ih hw))

/-- `@` begins annotations only. -/
theorem Token.plain_of_unannotated {t : Token} (ht : ∀ inside a, t ≠ .annot inside a)
    (hm : m ∈ t.marks) : m.isAnnot = false ∧ m.char ≠ '@' := by
  have hplain : ∀ inside cs, '@' ∉ cs → m ∈ mark inside false cs →
      m.isAnnot = false ∧ m.char ≠ '@' := fun inside cs hcs hmem => by
    obtain ⟨-, hannot, hc⟩ := mem_mark hmem
    exact ⟨hannot, fun hat => hcs (hat ▸ hc)⟩
  have hgap : ∀ g : Gap, '@' ∉ g.chars := fun g hat =>
    absurd (List.all_eq_true.mp g.blank _ hat) (by decide)
  cases t with
  | annot inside a => exact absurd rfl (ht inside a)
  | symbols inside cs plain gap =>
    exact (List.mem_append.mp hm).elim
      (hplain inside cs fun hat => (of_all_isPlain plain _ hat).2.1 rfl)
      (hplain inside gap.chars (hgap gap))
  | opening gap =>
    exact (List.mem_append.mp hm).elim (hplain true ['<'] (by decide))
      (hplain true gap.chars (hgap gap))
  | closing gap =>
    exact (List.mem_append.mp hm).elim (hplain true ['>'] (by decide))
      (hplain true gap.chars (hgap gap))

/-- **Without annotations, every text is as if they were set apart.** -/
theorem setApart_of_unannotated (h : ∀ inside a, Token.annot inside a ∉ ts) :
    SetApart (marks ts) := by
  have hplain : ∀ w ∈ words (marks ts), ∀ m ∈ w, m.isAnnot = false ∧ m.char ≠ '@' :=
    fun w hw m hm => by
      obtain ⟨t, ht, hmt⟩ := List.mem_flatMap.mp (mem_of_mem_words hw hm)
      exact Token.plain_of_unannotated (fun inside a heq => h inside a (heq ▸ ht)) hmt
  intro w hw m hm
  have hat : beginsWithAt w = false := by
    cases w with
    | nil => exact absurd hm List.not_mem_nil
    | cons n w => simpa [beginsWithAt] using (hplain _ hw n List.mem_cons_self).2
  rw [hat]
  exact Or.inr (hplain w hw m hm).1

/-! ## What the words leave -/

/-- What is left of a text without the words that begin with `@`. -/
def kept (ms : List Mark) : List Mark := ((words ms).filter fun w => !beginsWithAt w).flatten

theorem cut_map_char (ms : List Mark) :
    cut isBlank (ms.map Mark.char) = (words ms).map (List.map Mark.char) := by
  induction ms with
  | nil => rfl
  | cons m ms ih =>
    rw [List.map_cons, cut, words, List.splitOnP_cons_eq_if_modifyHead, ih]
    split
    · rfl
    · rw [words]
      cases hsplit : List.splitOnP (fun m => isBlank m.char) ms with
      | nil => exact absurd hsplit (List.splitOnP_ne_nil _ _)
      | cons w ws => rfl

/-- **Erasing a text** means to leave out the words that begin with `@`, and then to read what is left
outside brackets. -/
theorem eraseGenerics_marks (ms : List Mark) :
    eraseGenerics (String.ofList (ms.map Mark.char)) =
      String.ofList (outsideBrackets 0 ((kept ms).map Mark.char)) := by
  have hkept : ∀ ws : List (List Mark),
      (((((ws.map (List.map Mark.char)).map String.ofList).filter fun w => !w.isEmpty).filter
        fun w => w.toList.head? != some '@').flatMap String.toList) =
          ((ws.filter fun w => !beginsWithAt w).flatten).map Mark.char := fun ws => by
    induction ws with
    | nil => rfl
    | cons w ws ih =>
      cases w with
      | nil => simpa [beginsWithAt] using ih
      | cons m w =>
        by_cases hat : m.char = '@'
        · simpa [beginsWithAt, hat] using ih
        · simpa [beginsWithAt, hat, List.filter_cons] using ih
  rw [eraseGenerics, Text.words, pieces, String.toList_ofList, cut_map_char, hkept]
  rfl

/-- `ks` is left of `ms` when blanks and annotations are taken out.  Of what makes no difference,
anything may be taken out. -/
inductive Leaves : List Mark → List Mark → Prop where
  | nil : Leaves [] []
  | drop {m : Mark} {ms ks : List Mark}
      (hm : isBlank m.char = true ∨ m.Indifferent ∨ m.isAnnot = true) (h : Leaves ms ks) :
      Leaves (m :: ms) ks
  | keep {m : Mark} {ms ks : List Mark} (hblank : isBlank m.char = false)
      (hm : m.Indifferent ∨ m.isAnnot = false) (h : Leaves ms ks) :
      Leaves (m :: ms) (m :: ks)

namespace Leaves

theorem append {ks' : List Mark} (h : Leaves ms ks) (h' : Leaves ns ks') :
    Leaves (ms ++ ns) (ks ++ ks') := by
  induction h with
  | nil => exact h'
  | drop hm _ ih => exact .drop hm ih
  | keep hblank hm _ ih => exact .keep hblank hm ih

theorem exists_of_append (h : Leaves (ms ++ ns) ks) :
    ∃ ks₁ ks₂, ks = ks₁ ++ ks₂ ∧ Leaves ms ks₁ ∧ Leaves ns ks₂ := by
  induction ms generalizing ks with
  | nil => exact ⟨[], ks, rfl, .nil, h⟩
  | cons m ms ih =>
    cases h with
    | drop hm h =>
      obtain ⟨ks₁, ks₂, rfl, h₁, h₂⟩ := ih h
      exact ⟨ks₁, ks₂, rfl, .drop hm h₁, h₂⟩
    | keep hblank hm h =>
      obtain ⟨ks₁, ks₂, rfl, h₁, h₂⟩ := ih h
      exact ⟨_ :: ks₁, ks₂, rfl, .keep hblank hm h₁, h₂⟩

/-- A word of annotations may be left out. -/
theorem of_annotations (h : ∀ m ∈ w, m.Indifferent ∨ m.isAnnot = true) : Leaves w [] := by
  induction w with
  | nil => exact .nil
  | cons m w ih =>
    exact .drop (Or.inr (h m List.mem_cons_self)) (ih fun n hn => h n (List.mem_cons_of_mem _ hn))

/-- A word of anything else may stay. -/
theorem of_others (hblank : ∀ m ∈ w, isBlank m.char = false)
    (h : ∀ m ∈ w, m.Indifferent ∨ m.isAnnot = false) : Leaves w w := by
  induction w with
  | nil => exact .nil
  | cons m w ih =>
    exact .keep (hblank m List.mem_cons_self) (h m List.mem_cons_self)
      (ih (fun n hn => hblank n (List.mem_cons_of_mem _ hn))
        fun n hn => h n (List.mem_cons_of_mem _ hn))

end Leaves

/-- **If annotations are set apart, the words leave nothing of them**, and all the rest of the text,
but for what makes no difference. -/
theorem leaves_kept (h : SetApart ms) : Leaves ms (kept ms) := by
  have hone : ∀ w : List Mark, (∀ m ∈ w, isBlank m.char = false) →
      (∀ m ∈ w, m.Indifferent ∨ m.isAnnot = beginsWithAt w) →
      Leaves w ([w].filter fun w => !beginsWithAt w).flatten := fun w hw hapart => by
    -- A word is taken out or stays as a whole, and does either rightly.
    cases hat : beginsWithAt w with
    | true =>
      rw [hat] at hapart
      simpa [hat] using Leaves.of_annotations hapart
    | false =>
      rw [hat] at hapart
      simpa [hat] using Leaves.of_others hw hapart
  induction ms using word_induction with
  | word w hw =>
    rw [SetApart, words_of_word hw] at h
    rw [kept, words_of_word hw]
    exact hone w hw (h w List.mem_cons_self)
  | gap w b ms hw hb ih =>
    rw [SetApart, words_append_cons hw hb] at h
    have hrest := Leaves.drop (Or.inl hb) (ih fun v hv => h v (List.mem_cons_of_mem _ hv))
    have happend := (hone w hw (h w List.mem_cons_self)).append hrest
    rwa [kept, ← List.flatten_append, ← List.filter_append, List.singleton_append,
      ← words_append_cons hw hb] at happend

/-! ## What is left of a token -/

namespace Leaves

/-- Nothing is left of blanks. -/
theorem eq_nil (h : Leaves ms ks) (hms : ∀ m ∈ ms, isBlank m.char = true) : ks = [] := by
  induction h with
  | nil => rfl
  | drop _ _ ih => exact ih fun m hm => hms m (List.mem_cons_of_mem _ hm)
  | keep hblank => exact absurd ((hms _ List.mem_cons_self).symm.trans hblank) (by decide)

/-- The blanks behind a token leave nothing. -/
theorem of_gap {inside : Bool} {g : Gap} (h : Leaves (ms ++ mark inside false g.chars) ks) :
    Leaves ms ks := by
  obtain ⟨ks₁, ks₂, rfl, h₁, h₂⟩ := h.exists_of_append
  rw [h₂.eq_nil fun m hm => List.all_eq_true.mp g.blank _ (mem_mark hm).2.2, List.append_nil]
  exact h₁

/-- What is left was there, and is of annotations only where it makes no difference. -/
theorem mem (h : Leaves ms ks) :
    ∀ m ∈ ks, m ∈ ms ∧ (m.Indifferent ∨ m.isAnnot = false) := by
  induction h with
  | nil => exact nofun
  | drop _ _ ih => exact fun m hm => (ih m hm).imp_left (List.mem_cons_of_mem _)
  | keep _ hm _ ih =>
    intro m hmem
    rcases List.mem_cons.mp hmem with rfl | hmem
    · exact ⟨List.mem_cons_self, hm⟩
    · exact (ih m hmem).imp_left (List.mem_cons_of_mem _)

/-- All is left of characters that are neither blank nor of annotations, and make a difference. -/
theorem chars_eq {inside : Bool} {cs : List Char}
    (hcs : ∀ c ∈ cs, isBlank c = false ∧ (inside = false ∨ c = '<' ∨ c = '>'))
    (h : Leaves (mark inside false cs) ks) : ks.map Mark.char = cs := by
  induction cs generalizing ks with
  | nil =>
    cases h
    rfl
  | cons c cs ih =>
    obtain ⟨hblank, hdiffers⟩ := hcs c List.mem_cons_self
    have hrest := fun c' hc' => hcs c' (List.mem_cons_of_mem _ hc')
    cases h with
    | drop hm h =>
      rcases hm with hm | ⟨hinside, hopen, hclose⟩ | hm
      · exact absurd (hblank.symm.trans hm) (by decide)
      · rcases hdiffers with hdiffers | hdiffers | hdiffers
        · exact absurd (hdiffers.symm.trans hinside) (by decide)
        · exact absurd hdiffers hopen
        · exact absurd hdiffers hclose
      · exact absurd hm Bool.false_ne_true
    | keep _ _ h => rw [List.map_cons, ih hrest h]

end Leaves

/-! ## What the brackets leave -/

theorem outsideBrackets_inside {cs : List Char} (hcs : ∀ c ∈ cs, c ≠ '<' ∧ c ≠ '>') (d : Nat)
    (rest : List Char) : outsideBrackets (d + 1) (cs ++ rest) = outsideBrackets (d + 1) rest := by
  induction cs with
  | nil => rfl
  | cons c cs ih =>
    obtain ⟨hopen, hclose⟩ := hcs c List.mem_cons_self
    rw [List.cons_append, outsideBrackets, ih fun c' hc' => hcs c' (List.mem_cons_of_mem _ hc')]
    · exact hopen
    · exact hclose

theorem outsideBrackets_outside {cs : List Char} (hcs : ∀ c ∈ cs, c ≠ '<' ∧ c ≠ '>')
    (rest : List Char) : outsideBrackets 0 (cs ++ rest) = cs ++ outsideBrackets 0 rest := by
  induction cs with
  | nil => rfl
  | cons c cs ih =>
    obtain ⟨hopen, hclose⟩ := hcs c List.mem_cons_self
    rw [List.cons_append, outsideBrackets, ih fun c' hc' => hcs c' (List.mem_cons_of_mem _ hc')]
    · rfl
    · exact hopen
    · exact hclose

/-- **Whatever is left of the tokens `ts`, `out` is read from it outside brackets**, if they stand
inside `d` brackets, and what follows them stands inside `d'`. -/
def Reads (d : Nat) (ts : List Token) (out : List Char) (d' : Nat) : Prop :=
  ∀ ks, Leaves (marks ts) ks → ∀ rest,
    outsideBrackets d (ks.map Mark.char ++ rest) = out ++ outsideBrackets d' rest

namespace Reads

variable {d d' d'' : Nat} {out out' : List Char}

theorem nil (d : Nat) : Reads d [] [] d := fun ks h rest => by
  cases h
  rfl

theorem append (h : Reads d ts out d') (h' : Reads d' us out' d'') :
    Reads d (ts ++ us) (out ++ out') d'' := fun ks hks rest => by
  rw [marks_append] at hks
  obtain ⟨ks₁, ks₂, rfl, h₁, h₂⟩ := hks.exists_of_append
  rw [List.map_append, List.append_assoc, h ks₁ h₁, h' ks₂ h₂, List.append_assoc]

/-- Tokens behind others of which nothing is read. -/
theorem skip (h : Reads d ts [] d') (h' : Reads d' us out d'') : Reads d (ts ++ us) out d'' :=
  h.append h'

/-- It is enough to know what is read of what is left of one token. -/
theorem token {t : Token} (h : ∀ ks, Leaves t.marks ks → ∀ rest,
    outsideBrackets d (ks.map Mark.char ++ rest) = out ++ outsideBrackets d' rest) :
    Reads d [t] out d' := fun ks hks => h ks (by rwa [marks_cons, marks_nil, List.append_nil] at hks)

/-- Nothing is read of a token inside type arguments, unless a bracket is left of it. -/
theorem of_inside {t : Token} (h : ∀ ks, Leaves t.marks ks → ∀ m ∈ ks, m.char ≠ '<' ∧ m.char ≠ '>')
    (d : Nat) : Reads (d + 1) [t] [] (d + 1) := token fun ks hks rest => by
  refine outsideBrackets_inside (fun c hc => ?_) d rest
  obtain ⟨m, hm, rfl⟩ := List.mem_map.mp hc
  exact h ks hks m hm

theorem annot_inside (d : Nat) (a : Annot) :
    Reads (d + 1) [.annot true a] [] (d + 1) := of_inside (fun ks hks m hm => by
  obtain ⟨hmem, ⟨-, hchar⟩ | hother⟩ := hks.of_gap.mem m hm
  · exact hchar
  · exact absurd (hother.symm.trans (mem_mark hmem).2.1) (by decide)) d

/-- Nothing is left of an annotation outside type arguments. -/
theorem annot_outside (d : Nat) (a : Annot) : Reads d [.annot false a] [] d :=
  token fun ks hks rest => by
    have hnone : ks = [] := List.eq_nil_iff_forall_not_mem.mpr fun m hm => by
      obtain ⟨hmem, ⟨hinside, -⟩ | hother⟩ := hks.of_gap.mem m hm
      · exact absurd (hinside.symm.trans (mem_mark hmem).1) (by decide)
      · exact absurd (hother.symm.trans (mem_mark hmem).2.1) (by decide)
    rw [hnone]
    rfl

theorem annotations {inside : Bool} (h : ∀ a, Reads d [.annot inside a] [] d)
    (as : List Annot) : Reads d (as.map (.annot inside)) [] d := by
  induction as with
  | nil => exact nil d
  | cons a as ih => exact (h a).skip ih

variable {cs : List Char} {plain : cs.all isPlain = true} {g : Gap}

/-- Nothing is read of other tokens inside type arguments, … -/
theorem symbols_inside (d : Nat) : Reads (d + 1) [.symbols true cs plain g] [] (d + 1) :=
  of_inside (fun _ hks m hm => (of_all_isPlain plain _ (mem_mark (hks.of_gap.mem m hm).1).2.2).2.2) d

/-- … and all of them is read outside. -/
theorem symbols_outside : Reads 0 [.symbols false cs plain g] cs 0 := token fun ks hks rest => by
  rw [hks.of_gap.chars_eq fun c hc => ⟨(of_all_isPlain plain c hc).1, Or.inl rfl⟩]
  exact outsideBrackets_outside (fun c hc => (of_all_isPlain plain c hc).2.2) rest

theorem opening (d : Nat) (g : Gap) : Reads d [.opening g] [] (d + 1) := token fun ks hks rest => by
  rw [hks.of_gap.chars_eq fun c hc => by rw [List.mem_singleton.mp hc]; decide,
    List.singleton_append, outsideBrackets]
  rfl

theorem closing (d : Nat) (g : Gap) : Reads (d + 1) [.closing g] [] d := token fun ks hks rest => by
  rw [hks.of_gap.chars_eq fun c hc => by rw [List.mem_singleton.mp hc]; decide,
    List.singleton_append, outsideBrackets]
  rfl

end Reads

/-! ## What is read of a class type

Inside type arguments nothing is read, one case for every way to write a type there. -/

theorem Dimension.reads (x : Dimension) (d : Nat) : Reads (d + 1) x.tokens [] (d + 1) :=
  (Reads.annotations (.annot_inside d) x.annotations).skip
    ((Reads.symbols_inside d).skip (.symbols_inside d))

mutual

theorem ClassType.reads_inside (d : Nat) :
    ∀ t : ClassType, Reads (d + 1) (t.tokens true) [] (d + 1)
  | .simple t => t.reads_inside d
  | .member outer _ t =>
    (outer.reads_inside d).skip ((Reads.symbols_inside d).skip (t.reads_inside d))

theorem SimpleType.reads_inside (d : Nat) :
    ∀ t : SimpleType, Reads (d + 1) (t.tokens true) [] (d + 1)
  | .plain as _ => (Reads.annotations (.annot_inside d) as).skip (.symbols_inside d)
  | .generic as _ bracket arguments =>
    (Reads.annotations (.annot_inside d) as).skip ((Reads.symbols_inside d).skip
      ((Reads.opening (d + 1) bracket).skip (arguments.reads (d + 1))))

theorem Arguments.reads (d : Nat) : ∀ as : Arguments, Reads (d + 1) as.tokens [] d
  | .last a bracket => (a.reads d).skip (.closing d bracket)
  | .more a _ rest => (a.reads d).skip ((Reads.symbols_inside d).skip (rest.reads d))

theorem Argument.reads (d : Nat) : ∀ a : Argument, Reads (d + 1) a.tokens [] (d + 1)
  | .reference t => t.reads d
  | .wildcard as _ => (Reads.annotations (.annot_inside d) as).skip (.symbols_inside d)
  | .bounded as _ _ _ t =>
    (Reads.annotations (.annot_inside d) as).skip ((Reads.symbols_inside d).skip
      ((Reads.symbols_inside d).skip (t.reads d)))

theorem ReferenceType.reads (d : Nat) : ∀ t : ReferenceType, Reads (d + 1) t.tokens [] (d + 1)
  | .classType t => t.reads_inside d
  | .primitives as _ _ x =>
    (Reads.annotations (.annot_inside d) as).skip ((Reads.symbols_inside d).skip (x.reads d))
  | .array t x => (t.reads d).skip (x.reads d)

end

theorem SimpleType.reads : ∀ t : SimpleType, Reads 0 (t.tokens false) t.name.toList 0
  | .plain as _ => (Reads.annotations (.annot_outside 0) as).skip .symbols_outside
  | .generic as i bracket arguments => by
    have hbehind : Reads 0 (.opening bracket :: arguments.tokens) [] 0 :=
      (Reads.opening 0 bracket).skip (arguments.reads 0)
    have hname : Reads 0 (i.token false :: .opening bracket :: arguments.tokens)
        (i.text.toList ++ []) 0 := Reads.symbols_outside.append hbehind
    rw [List.append_nil] at hname
    exact (Reads.annotations (.annot_outside 0) as).skip hname

theorem ClassType.names_ne_nil : ∀ t : ClassType, t.names ≠ []
  | .simple _ => List.cons_ne_nil _ _
  | .member _ _ _ => List.append_ne_nil_of_right_ne_nil _ (List.cons_ne_nil _ _)

/-- **The identifiers are read, with dots between them**, and nothing else. -/
theorem ClassType.reads : ∀ t : ClassType, Reads 0 (t.tokens false) (joinWith "." t.names).toList 0
  | .simple t => t.reads
  | .member outer _ t => by
    rw [ClassType.names, joinWith_concat outer.names_ne_nil, String.toList_append,
      String.toList_append, List.append_assoc]
    exact outer.reads.append (Reads.symbols_outside.append t.reads)

/-! ## Erasing a class type -/

/-- There are annotations in the type, inside type arguments or outside. -/
def ClassType.Annotated (t : ClassType) : Prop :=
  ∃ inside a, Token.annot inside a ∈ t.tokens false

/-- **Erasing a class type leaves its identifiers, with dots between them**, if the annotations in it
are set apart. -/
theorem erase_written (t : ClassType) (h : t.Annotated → SetApart (marks (t.tokens false))) :
    eraseGenerics t.text = joinWith "." t.names := by
  have hapart : SetApart (marks (t.tokens false)) := by
    by_cases hannotated : t.Annotated
    · exact h hannotated
    · exact setApart_of_unannotated fun inside a ha => hannotated ⟨inside, a, ha⟩
  have hread := t.reads _ (leaves_kept hapart) []
  rw [List.append_nil, outsideBrackets, List.append_nil] at hread
  rw [ClassType.text, eraseGenerics_marks, hread, String.ofList_toList]

/-! ## Two types -/

def Gap.none : Gap := ⟨[], by decide⟩

def Gap.space : Gap := ⟨[' '], by decide⟩

/-- The package `java.util`. -/
def javaUtil : ClassType :=
  .member (.simple (.plain [] ⟨"java", by decide, .none⟩)) .none
    (.plain [] ⟨"util", by decide, .none⟩)

/-- `java.util. @NonNull Map<@Size(max = 3) String, ?>.Entry` -/
def spacedEntry : ClassType :=
  .member
    (.member javaUtil .space
      (.generic [⟨"NonNull", none, .space⟩] ⟨"Map", by decide, .none⟩ .none
        (.more
          (.reference (.classType (.simple
            (.plain [⟨"Size", some "max = 3", .space⟩] ⟨"String", by decide, .none⟩))))
          .space (.last (.wildcard [] .none) .none))))
    .none (.plain [] ⟨"Entry", by decide, .none⟩)

theorem erase_written_sample :
    spacedEntry.text = "java.util. @NonNull Map<@Size(max = 3) String, ?>.Entry" ∧
      SetApart (marks (spacedEntry.tokens false)) ∧
        eraseGenerics spacedEntry.text = "java.util.Map.Entry" :=
  ⟨by decide +kernel, by decide +kernel,
    (erase_written spacedEntry fun _ => by decide +kernel).trans (by decide +kernel)⟩

/-- `java.util.@NonNull List` -/
def gluedList : ClassType :=
  .member javaUtil .none (.plain [⟨"NonNull", none, .space⟩] ⟨"List", by decide, .none⟩)

/-- **An annotation directly behind a dot stays**, since no word of the text begins with it. -/
theorem erase_glued_sample :
    gluedList.text = "java.util.@NonNull List" ∧ joinWith "." gluedList.names = "java.util.List" ∧
      eraseGenerics gluedList.text = "java.util.@NonNullList" ∧
        ¬ ∀ t : ClassType, eraseGenerics t.text = joinWith "." t.names := by
  have hnames : joinWith "." gluedList.names = "java.util.List" := by decide +kernel
  have herased : eraseGenerics gluedList.text = "java.util.@NonNullList" := by decide +kernel
  refine ⟨by decide +kernel, hnames, herased, fun hall => ?_⟩
  rw [hall, hnames] at herased
  exact absurd herased (by decide)

end JavaCallGraph.Syntax.Written
