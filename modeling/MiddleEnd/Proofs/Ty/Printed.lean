import Mathlib.Data.List.Induction
import Mathlib.Data.Set.Function
import MiddleEnd.Proofs.Code.Names
import MiddleEnd.Proofs.Ty.Subst

/-! The text of a type tells the type, up to the numbers of its placeholders. A text is read from its end:
its last word tells the outermost constructor, unless it ends with a closing parenthesis. -/

namespace MiddleEnd

open List

variable {numbers : List Nat}

/-! ### Words -/

theorem word_inj {mark : Char → Bool} {before before' word word' : List Char}
    (clean : ∀ character ∈ word, mark character = false)
    (clean' : ∀ character ∈ word', mark character = false)
    (broken : ∀ character ∈ before.getLast?, mark character = true)
    (broken' : ∀ character ∈ before'.getLast?, mark character = true)
    (same : before ++ word = before' ++ word') : before = before' ∧ word = word' := by
  have read {before word : List Char} (clean : ∀ character ∈ word, mark character = false)
      (broken : ∀ character ∈ before.getLast?, mark character = true) :
      ((before ++ word).reverse.takeWhile fun character => !mark character) = word.reverse := by
    rw [reverse_append, takeWhile_append_of_pos (by simpa using clean)]
    rcases eq_nil_or_concat before with rfl | ⟨before, last, rfl⟩ <;> simp_all
  have words := read clean broken
  rw [same, read clean' broken'] at words
  obtain rfl := reverse_inj.mp words
  exact ⟨append_cancel_right same, rfl⟩

namespace Ty

variable {type other : Ty} {before before' : List Char} {separator separator' : String} {head head' : Head}
  {n n' : Nat → Nat}

def isMark (character : Char) : Bool := character = ' ' || character = '(' || character = ')'

theorem not_mark_of_digits {n : Nat} : ∀ character ∈ (toString n).toList, isMark character = false := by
  intro _ mem
  have digit := isDigit_of_mem_digits mem
  simp only [isMark, Bool.or_eq_false_iff, decide_eq_false_iff_not]
  refine ⟨⟨?_, ?_⟩, ?_⟩ <;> rintro rfl <;> exact absurd digit (by decide)

def letter (index : Nat) : Char := Char.ofNat (97 + index % 26)

theorem letter_inj {index index' : Nat} (same : letter index = letter index') : index % 26 = index' % 26 := by
  have apart : ∀ first < 26, ∀ second < 26,
      Char.ofNat (97 + first) = Char.ofNat (97 + second) → first = second := by decide
  exact apart _ (Nat.mod_lt _ (by decide)) _ (Nat.mod_lt _ (by decide)) same

theorem not_mark_letter (index : Nat) : isMark (letter index) = false := by
  have clean : ∀ first < 26, isMark (Char.ofNat (97 + first)) = false := by decide
  exact clean _ (Nat.mod_lt _ (by decide))

theorem toList_genericName (index : Nat) :
    (genericName index).toList =
      '\'' :: letter index :: if index < 26 then [] else (toString (index / 26)).toList := by
  unfold genericName
  split <;> simp [letter, Char.toString]

theorem genericName_inj {index index' : Nat}
    (same : (genericName index).toList = (genericName index').toList) : index = index' := by
  rw [toList_genericName, toList_genericName, List.cons.injEq, List.cons.injEq] at same
  have letters := letter_inj same.2.1
  have rounds : index / 26 = index' / 26 := by
    have numbers := same.2.2
    split at numbers <;> split at numbers
    · omega
    · simp at numbers
    · simp at numbers
    · exact digits_inj numbers
  omega

def Head.word : Head → List Char
  | .prim primitive => primitive.name.toList
  | .app con => con.name.toList
  | .var n => '?' :: (toString n).toList
  | .generic n => (genericName n).toList
  | .function => ['-', '>']
  | .tuple => ['*']

/-- The heads without a number. -/
def Head.plain : List Head :=
  [.prim .unit, .prim .bool, .prim .int, .prim .float, .prim .string, .app .array, .app .option, .function, .tuple]

theorem Head.mem_plain (head : Head) : head ∈ plain ∨ ∃ n, head = .var n ∨ head = .generic n := by
  cases head with
  | prim primitive => exact .inl (by cases primitive <;> decide)
  | app con => exact .inl (by cases con <;> decide)
  | var n => exact .inr ⟨n, .inl rfl⟩
  | generic n => exact .inr ⟨n, .inr rfl⟩
  | function | tuple => exact .inl (by decide)

theorem Head.not_mark_word (head : Head) : ∀ character ∈ head.word, isMark character = false := by
  have clean : ∀ head ∈ plain, head.word.any isMark = false := by decide
  rcases head.mem_plain with mem | ⟨n, rfl | rfl⟩
  · simpa using clean head mem
  · exact forall_mem_cons.mpr ⟨by decide, not_mark_of_digits⟩
  · rw [word, toList_genericName]
    refine forall_mem_cons.mpr ⟨by decide, forall_mem_cons.mpr ⟨not_mark_letter n, ?_⟩⟩
    split
    · exact forall_mem_nil _
    · exact not_mark_of_digits

theorem Head.head?_word (head : Head) : head.word.head? ≠ none ∧
    (head.word.head? = some '?' ↔ ∃ n, head = .var n) ∧
      (head.word.head? = some '\'' ↔ ∃ n, head = .generic n) := by
  have plain_word : ∀ head ∈ plain, head.word.head? ≠ none ∧ head.word.head? ≠ some '?' ∧
      head.word.head? ≠ some '\'' := by decide
  rcases head.mem_plain with mem | ⟨n, rfl | rfl⟩
  · have numberless : (∀ n, head ≠ .var n) ∧ ∀ n, head ≠ .generic n := by
      constructor <;> rintro n rfl <;> simp [plain] at mem
    simp [plain_word head mem, numberless]
  · simp [word]
  · simp [word, toList_genericName]

theorem Head.word_inj (same : head.word = head'.word) : head = head' := by
  have apart : ∀ head ∈ plain, ∀ head' ∈ plain, head.word = head'.word → head = head' := by decide
  have first := head.head?_word
  rw [same] at first
  rcases head.mem_plain with mem | ⟨n, rfl | rfl⟩
  · rcases head'.mem_plain with mem' | ⟨n, rfl | rfl⟩
    · exact apart head mem head' mem' same
    · obtain ⟨n, rfl⟩ := first.2.1.mp (head?_word _ |>.2.1.mpr ⟨_, rfl⟩)
      simp [plain] at mem
    · obtain ⟨n, rfl⟩ := first.2.2.mp (head?_word _ |>.2.2.mpr ⟨_, rfl⟩)
      simp [plain] at mem
  · obtain ⟨n', rfl⟩ := (head?_word _).2.1.mp (first.2.1.mpr ⟨n, rfl⟩)
    rw [digits_inj (List.cons.inj same).2]
  · obtain ⟨n', rfl⟩ := (head?_word _).2.2.mp (first.2.2.mpr ⟨n, rfl⟩)
    rw [genericName_inj same]

/-! ### Pieces -/

def pieces : Ty → String × List Ty
  | .function params result => (" -> ", params ++ [result])
  | .tuple elements => (" * ", elements)
  | type => (" * ", [type])

def isWord : Ty → Bool
  | .function _ _ | .tuple _ => false
  | _ => true

def text (type : Ty) : List Char := (type.renderPart genericName).toList

def joined (pieces : String × List Ty) : List Char := pieces.1.toList.intercalate (pieces.2.map text)

theorem renderParts_eq (name : Nat → String) (types : List Ty) :
    renderParts name types = types.map (renderPart name) := by
  induction types with
  | nil => rfl
  | cons _ _ ih => rw [renderParts, ih, map_cons]

theorem toList_render (type : Ty) : (type.render genericName).toList = joined type.pieces := by
  cases type <;> simp [render, renderPart, pieces, joined, text, renderParts_eq, Function.comp_def] <;> rfl

theorem text_compound (compound : type.isWord = false) :
    type.text = '(' :: joined type.pieces ++ [')'] := by
  cases type with
  | function params result | tuple elements =>
    simp [renderPart, pieces, joined, text, renderParts_eq, Function.comp_def]
    rfl
  | _ => cases compound

def front : Ty → List Char
  | .app _ element => element.text ++ [' ']
  | _ => []

theorem text_word (is_word : type.isWord = true) : type.text = type.front ++ type.head.word := by
  cases type with
  | function _ _ | tuple _ => cases is_word
  | _ => simp [text, renderPart, front, head, Head.word]

/-- What stands before the last one of some pieces. -/
def lead (separator : String) (types : List Ty) : List Char :=
  if types.isEmpty then [] else joined (separator, types) ++ separator.toList

theorem joined_concat (separator : String) (types : List Ty) (type : Ty) :
    joined (separator, types ++ [type]) = lead separator types ++ type.text := by
  induction types with
  | nil => simp [joined, lead]
  | cons _ types ih =>
    cases types with
    | nil => simp [joined, lead, intercalate_cons_cons]
    | cons _ _ =>
      simp only [joined, lead, cons_append, map_cons, isEmpty_cons, Bool.false_eq_true,
        if_false, intercalate_cons_cons] at ih ⊢
      rw [ih]
      simp only [append_assoc]

/-! ### Reading from the end -/

/-- Types whose parentheses and separators show: functions have parameters and tuples several elements. -/
inductive Legible : Ty → Prop where
  | prim (primitive : Primitive) : Legible (.prim primitive)
  | function {params : List Ty} {result : Ty} (some_params : params ≠ [])
      (legible : ∀ param ∈ params, Legible param) (legible' : Legible result) :
      Legible (.function params result)
  | tuple {elements : List Ty} (several : 2 ≤ elements.length)
      (legible : ∀ element ∈ elements, Legible element) : Legible (.tuple elements)
  | app (con : Constructor) {element : Ty} (legible : Legible element) : Legible (.app con element)
  | var (n : Nat) : Legible (.var n)
  | generic (n : Nat) : Legible (.generic n)

def Broken (text : List Char) : Prop := ∀ character ∈ text.getLast?, isMark character = true

def Readable (type : Ty) : Prop :=
  ∀ {other : Ty} {before before' : List Char}, other.Legible → Broken before → Broken before' →
    before ++ type.text = before' ++ other.text → before = before' ∧ type = other

theorem broken_concat {text : List Char} {last : Char} (mark : isMark last = true) : Broken (text ++ [last]) := by
  simpa [Broken] using mark

theorem Legible.two_le_pieces (legible : type.Legible) (compound : type.isWord = false) :
    2 ≤ type.pieces.2.length := by
  cases legible with
  | function some_params _ _ =>
    have positive := length_pos_iff.mpr some_params
    simp [pieces]
    omega
  | tuple several _ => exact several
  | _ => cases compound

theorem Legible.of_mem_pieces (legible : type.Legible) : ∀ piece ∈ type.pieces.2, piece.Legible := by
  cases legible with
  | function _ params _ =>
    intro piece mem
    rcases mem_append.mp mem with mem | mem
    · exact params piece mem
    · rwa [mem_singleton.mp mem]
  | tuple _ elements => exact elements
  | _ => simp_all [Ty.pieces]; constructor <;> assumption

def Separates (separator : String) : Prop := separator = " -> " ∨ separator = " * "

theorem separates_pieces (type : Ty) : Separates type.pieces.1 := by
  cases type <;> simp [pieces, Separates]

theorem separator_inj (known : Separates separator) (known' : Separates separator')
    (same : before ++ separator.toList = before' ++ separator'.toList) : separator = separator' := by
  have ends := congrArg (fun text => text.reverse.take 2) same
  rcases known with rfl | rfl <;> rcases known' with rfl | rfl <;> first | rfl | simp at ends

theorem getLast?_lead (known : Separates separator) (before : List Char) (types : List Ty) :
    (before ++ ['('] ++ lead separator types).getLast? = some (if types = [] then '(' else ' ') := by
  cases types with
  | nil => simp [lead]
  | cons _ _ => rcases known with rfl | rfl <;> rw [lead, getLast?_append] <;> simp

theorem broken_lead (known : Separates separator) (before : List Char) (types : List Ty) :
    Broken (before ++ ['('] ++ lead separator types) := by
  rw [Broken, getLast?_lead known]
  split <;> simp [isMark]

theorem joined_inj {types : List Ty} (readable : ∀ type ∈ types, Readable type) {types' : List Ty}
    (legible : ∀ type ∈ types', Legible type) (known : Separates separator) (known' : Separates separator')
    (some_types : types ≠ []) (some_types' : types' ≠ [])
    (same : before ++ ['('] ++ joined (separator, types) = before' ++ ['('] ++ joined (separator', types')) :
    before = before' ∧ types = types' ∧ (2 ≤ types.length → separator = separator') := by
  induction types using reverseRecOn generalizing types' with
  | nil => exact absurd rfl some_types
  | append_singleton types type ih =>
    obtain ⟨types', type', rfl⟩ := (eq_nil_or_concat types').resolve_left some_types'
    rw [concat_eq_append] at legible same ⊢
    rw [forall_mem_append] at readable legible
    rw [joined_concat, joined_concat, ← append_assoc, ← append_assoc] at same
    obtain ⟨leads, rfl⟩ := readable.2 type (by simp) (legible.2 type' (by simp)) (broken_lead known _ _)
      (broken_lead known' _ _) same
    have last := congrArg getLast? leads
    rw [getLast?_lead known, getLast?_lead known'] at last
    by_cases one : types = [] <;> by_cases one' : types' = [] <;> simp [one, one'] at last
    · subst one one'
      refine ⟨by simpa [lead] using leads, rfl, fun several => ?_⟩
      simp at several
    · rw [lead, lead, if_neg (by simpa using one), if_neg (by simpa using one'), ← append_assoc,
        ← append_assoc] at leads
      obtain rfl := separator_inj known known' leads
      obtain ⟨befores, rfl, -⟩ := ih readable.1 legible.1 one one' (append_cancel_right leads)
      exact ⟨befores, rfl, fun _ => rfl⟩

theorem pieces_inj (compound : type.isWord = false) (compound' : other.isWord = false)
    (same : type.pieces = other.pieces) : type = other := by
  cases type <;> cases other <;> simp_all [pieces, isWord]

theorem pieces_word (is_word : type.isWord = true) : type.pieces = (" * ", [type]) := by
  cases type <;> first | rfl | cases is_word

theorem broken_front (broken : Broken before) (type : Ty) : Broken (before ++ type.front) := by
  cases type with
  | app _ _ =>
    rw [front, ← append_assoc]
    exact broken_concat (by decide)
  | _ => simpa [front] using broken

theorem word_ne_compound (is_word : type.isWord = true) (compound : other.isWord = false)
    (broken : Broken before) :
    before ++ type.text ≠ before' ++ other.text := by
  rw [text_word is_word, text_compound compound, ← append_assoc, ← append_assoc]
  intro same
  have words := (word_inj type.head.not_mark_word (forall_mem_nil _) (broken_front broken type)
    (broken_concat (by decide)) (same.trans (append_nil _).symm)).2
  exact type.head.head?_word.1 (congrArg head? words)

theorem readable_compound (legible : type.Legible) (compound : type.isWord = false)
    (readable : ∀ piece ∈ type.pieces.2, Readable piece) : Readable type := by
  intro other _ _ legible' _ broken' same
  cases compound' : other.isWord with
  | true => exact absurd same.symm (word_ne_compound compound' compound broken')
  | false =>
    have several := legible.two_le_pieces compound
    have several' := legible'.two_le_pieces compound'
    rw [text_compound compound, text_compound compound', ← append_assoc, ← append_assoc] at same
    obtain ⟨befores, types, separators⟩ := joined_inj readable legible'.of_mem_pieces (separates_pieces type)
      (separates_pieces other) (ne_nil_of_length_pos (by omega)) (ne_nil_of_length_pos (by omega))
      (by simpa using append_cancel_right same)
    exact ⟨befores, pieces_inj compound compound' (Prod.ext (separators several) types)⟩

theorem readable_word (is_word : type.isWord = true)
    (readable : ∀ con element, type = .app con element → Readable element) : Readable type := by
  intro other _ _ legible' broken broken' same
  cases is_word' : other.isWord with
  | false => exact absurd same (word_ne_compound is_word is_word' broken)
  | true =>
    rw [text_word is_word, text_word is_word', ← append_assoc, ← append_assoc] at same
    obtain ⟨fronts, words⟩ := word_inj type.head.not_mark_word other.head.not_mark_word
      (broken_front broken type) (broken_front broken' other) same
    have heads := Head.word_inj words
    cases type with
    | app con element =>
      cases legible' with
      | app con' legible' =>
        obtain rfl : con = con' := Head.app.inj heads
        rw [front, front, ← append_assoc, ← append_assoc] at fronts
        obtain ⟨befores, rfl⟩ :=
          readable con element rfl legible' broken broken' (append_cancel_right fronts)
        exact ⟨befores, rfl⟩
      | _ => cases heads
    | function _ _ | tuple _ => cases is_word
    | _ => cases other <;> cases heads; exact ⟨by simpa [front] using fronts, rfl⟩

theorem Legible.readable (legible : type.Legible) : Readable type := by
  induction legible with
  | function some_params params result params_ih result_ih =>
    refine readable_compound (.function some_params params result) rfl fun piece mem => ?_
    rcases mem_append.mp mem with mem | mem
    · exact params_ih piece mem
    · exact mem_singleton.mp mem ▸ result_ih
  | tuple several elements ih => exact readable_compound (.tuple several elements) rfl ih
  | app _ _ ih => exact readable_word rfl fun _ _ same => by cases same; exact ih
  | _ => exact readable_word rfl fun _ _ same => by cases same

theorem Legible.some_pieces (legible : type.Legible) : type.pieces.2 ≠ [] := by
  cases kind : type.isWord with
  | true => simp [pieces_word kind]
  | false =>
    have several := legible.two_le_pieces kind
    exact ne_nil_of_length_pos (by omega)

theorem Legible.render_inj (legible : type.Legible) (legible' : other.Legible)
    (same : type.render genericName = other.render genericName) : type = other := by
  have texts : joined type.pieces = joined other.pieces := by
    simpa only [toList_render] using congrArg String.toList same
  obtain ⟨-, types, separators⟩ := @joined_inj [] [] _ _ _
    (fun piece mem => (legible.of_mem_pieces piece mem).readable) _ legible'.of_mem_pieces
    (separates_pieces type) (separates_pieces other) legible.some_pieces legible'.some_pieces
    (congrArg ('(' :: ·) texts)
  cases kind : type.isWord with
  | true =>
    rw [pieces_word kind] at types separators
    cases kind' : other.isWord with
    | true => simpa [pieces_word kind'] using types
    | false =>
      have several := legible'.two_le_pieces kind'
      simp [← types] at several
  | false =>
    have several := legible.two_le_pieces kind
    cases kind' : other.isWord with
    | true => simp [types, pieces_word kind'] at several
    | false => exact pieces_inj kind kind' (Prod.ext (separators several) types)

/-! ### Placeholders -/

def rename (n : Nat → Nat) (type : Ty) : Ty := type.substGenerics fun old => .generic (n old)

theorem rename_function (n : Nat → Nat) (params : List Ty) (result : Ty) :
    (Ty.function params result).rename n = .function (params.map (rename n)) (result.rename n) :=
  subst_function ..

theorem rename_tuple (n : Nat → Nat) (elements : List Ty) :
    (Ty.tuple elements).rename n = .tuple (elements.map (rename n)) :=
  subst_tuple ..

theorem generics_rename (n : Nat → Nat) (type : Ty) :
    (type.rename n).generics = type.generics.map n := by
  have all {types : List Ty} (ih : ∀ type ∈ types, (type.rename n).generics = type.generics.map n) :
      (types.map (rename n)).flatMap generics = (types.flatMap generics).map n := by
    rw [flatMap_map, map_flatMap]
    exact congrArg flatten (map_congr_left ih)
  induction type with
  | function _ _ params_ih result_ih =>
    rw [rename_function, generics_function, generics_function, all params_ih, result_ih, map_append]
  | tuple _ ih => rw [rename_tuple, generics_tuple, generics_tuple, all ih]
  | app _ _ ih => exact ih
  | _ => rfl

theorem rename_rename (n n' : Nat → Nat) (type : Ty) :
    (type.rename n).rename n' = type.rename (n' ∘ n) := subst_subst ..

theorem rename_congr (agree : ∀ old ∈ type.generics, n old = n' old) : type.rename n = type.rename n' :=
  subst_congr (fun _ _ => rfl) fun old mem => congrArg _ (agree old mem)

theorem rename_id (fixed : ∀ old ∈ type.generics, n old = old) : type.rename n = type :=
  (rename_congr fixed).trans type.subst_self

theorem renderPart_rename (name : Nat → String) (n : Nat → Nat) (type : Ty) :
    (type.rename n).renderPart name = type.renderPart (name ∘ n) := by
  induction type with
  | function _ _ params_ih result_ih =>
    simp only [rename_function, renderPart, renderParts_eq, List.map_map, result_ih]
    rw [map_congr_left (f := renderPart name ∘ rename n) params_ih]
  | tuple _ ih =>
    simp only [rename_tuple, renderPart, renderParts_eq, List.map_map]
    rw [map_congr_left (f := renderPart name ∘ rename n) ih]
  | app _ _ ih => rw [renderPart, ← ih]; rfl
  | _ => rfl

theorem render_rename (name : Nat → String) (n : Nat → Nat) (type : Ty) :
    (type.rename n).render name = type.render (name ∘ n) := by
  cases type with
  | function _ _ =>
    simp only [rename_function, render, renderParts_eq, List.map_map, renderPart_rename, Function.comp_def]
  | tuple _ => simp only [rename_tuple, render, renderParts_eq, List.map_map, renderPart_rename, Function.comp_def]
  | app _ _ => rw [render, ← renderPart_rename]; rfl
  | _ => rfl

theorem Legible.rename (legible : type.Legible) (n : Nat → Nat) : (type.rename n).Legible := by
  induction legible with
  | function some_params _ _ params_ih result_ih =>
    rw [rename_function]
    exact .function (by simpa using some_params) (forall_mem_map.mpr params_ih) result_ih
  | tuple several _ ih =>
    rw [rename_tuple]
    exact .tuple (by simpa using several) (forall_mem_map.mpr ih)
  | app con _ ih => exact .app con ih
  | prim primitive => exact .prim primitive
  | var n => exact .var n
  | generic _ => exact .generic _

def place (type : Ty) (n : Nat) : Nat := type.generics.eraseDups.idxOf n

theorem print_eq (type : Ty) : type.print = (type.rename type.place).render genericName :=
  (type.render_rename genericName type.place).symm

theorem eraseDups_map
    (injective : ∀ first ∈ numbers, ∀ second ∈ numbers, n first = n second → first = second) :
    (numbers.map n).eraseDups = numbers.eraseDups.map n := by
  induction length : numbers.length using Nat.strongRecOn generalizing numbers with
  | ind _ ih =>
    cases numbers with
    | nil => rfl
    | cons first numbers =>
      have others : (numbers.map n).filter (fun other => !other == n first) =
          (numbers.filter fun other => !other == first).map n := by
        rw [filter_map]
        refine congrArg (List.map n) (filter_congr fun other mem => ?_)
        grind
      have shorter := length_filter_le (fun other => !other == first) numbers
      rw [map_cons, eraseDups_cons, eraseDups_cons, others, map_cons,
        ih _ (by simp at length; omega) (fun second mem third _ => injective second (by grind) third (by grind)) rfl]

theorem idxOf_map {target : Nat} (injective : ∀ other ∈ numbers, n other = n target → other = target) :
    (numbers.map n).idxOf (n target) = numbers.idxOf target := by
  induction numbers with
  | nil => rfl
  | cons _ _ ih =>
    rw [map_cons, idxOf_cons, idxOf_cons, ih (by grind)]
    grind

theorem place_rename (injective : Set.InjOn n {old | old ∈ type.generics})
    {old : Nat} (mem : old ∈ type.generics) : (type.rename n).place (n old) = type.place old := by
  rw [place, generics_rename, eraseDups_map fun _ there _ there' => injective there there']
  exact idxOf_map fun _ there same => injective (mem_eraseDups.mp there) mem same

def placed (type : Ty) (place : Nat) : Nat := type.generics.eraseDups.getD place 0

theorem placed_place {n : Nat} (mem : n ∈ type.generics) : type.placed (type.place n) = n := by
  have bound := idxOf_lt_length_of_mem (mem_eraseDups.mpr mem)
  rw [placed, place, getD_eq_getElem?_getD, getElem?_eq_getElem bound, getElem_idxOf]
  rfl

/-- The types that are written alike are those that differ by a one-to-one renaming of placeholders. -/
theorem print_eq_iff {type other : Ty} (legible : type.Legible) (legible' : other.Legible) :
    type.print = other.print ↔ ∃ n : Nat → Nat,
      Set.BijOn n {old | old ∈ type.generics} {new | new ∈ other.generics} ∧ other = type.rename n := by
  constructor
  · intro same
    rw [print_eq, print_eq] at same
    have canonical := (legible.rename _).render_inj (legible'.rename _) same
    have renamed : type.rename (other.placed ∘ type.place) = other := by
      rw [← rename_rename, canonical, rename_rename]
      exact rename_id fun _ => placed_place
    have generics : other.generics = type.generics.map (other.placed ∘ type.place) := by
      rw [← generics_rename, renamed]
    have places {old : Nat} (member : old ∈ type.generics) :
        other.place (other.placed (type.place old)) = type.place old := by
      have there : type.place old ∈ (type.rename type.place).generics :=
        generics_rename .. ▸ List.mem_map_of_mem member
      rw [canonical, generics_rename] at there
      obtain ⟨new, member', place⟩ := List.mem_map.mp there
      rw [← place, placed_place member']
    refine ⟨other.placed ∘ type.place, ⟨fun old member => ?_, ?_, fun new member => ?_⟩, renamed.symm⟩
    · exact generics ▸ List.mem_map_of_mem member
    · intro old member old' member' same
      have same_place : type.place old = type.place old' := by
        rw [← places member, ← places member']
        exact congrArg other.place same
      rw [← placed_place member, same_place, placed_place member']
    · exact List.mem_map.mp (generics ▸ member)
  · rintro ⟨n, bijective, rfl⟩
    rw [print_eq, print_eq, rename_rename, rename_congr fun old member => ?_]
    exact (place_rename bijective.injOn member).symm

def pairing (first second : Nat) : Ty :=
  .function [.generic first, .tuple [.generic second, .function [.int] (.generic first)]] (.array (.generic second))

theorem legible_pairing (first second : Nat) : (pairing first second).Legible := by
  refine .function (by simp) ?_ (.app _ (.generic _))
  simp only [forall_mem_cons]
  refine ⟨.generic _, .tuple (by simp) ?_, by simp⟩
  simp only [forall_mem_cons]
  exact ⟨.generic _, .function (by simp) (by simpa using .prim _) (.generic _), by simp⟩

theorem print_eq_iff_pairing :
    (∃ n : Nat → Nat, Set.BijOn n {old | old ∈ (pairing 3 5).generics}
      {new | new ∈ (pairing 8 1).generics} ∧ pairing 8 1 = (pairing 3 5).rename n) ∧
    ¬ ∃ n : Nat → Nat, Set.BijOn n {old | old ∈ (pairing 3 5).generics}
      {new | new ∈ (pairing 2 2).generics} ∧ pairing 2 2 = (pairing 3 5).rename n :=
  ⟨(print_eq_iff (legible_pairing 3 5) (legible_pairing 8 1)).mp (by decide),
    (print_eq_iff (legible_pairing 3 5) (legible_pairing 2 2)).not.mp (by decide)⟩

end Ty
end MiddleEnd
