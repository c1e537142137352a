import Timetable.Numeral
import Timetable.Sql.Listing

/-!
# How statements are read

An engine tells the placeholders in the text of a statement from its other characters: a question
mark stands for the next parameter (`questions`), a dollar sign for the parameter with the number
behind it (`dollars`). A list that begins with a placeholder directly behind certain words is read
off the pieces up to the parenthesis that closes it (`lists`). For statements about listed ids this
gives back the placeholders that were written (`Listing.reads_question`, `Listing.reads_dollar`).
-/

namespace Timetable.Sql

/-- A character of a statement, or the placeholder of a parameter. -/
inductive Piece
  | char (c : Char)
  | mark (number : Nat)
deriving DecidableEq, Repr

/-- The number of a placeholder. -/
def Piece.number? : Piece → Option Nat
  | char _ => none
  | mark number => some number

/-- The numbers of the placeholders among some pieces. -/
def numbers (ps : List Piece) : List Nat := ps.filterMap Piece.number?

/-- The pieces of a text with question marks, of which the next one has a given number. -/
def questions (next : Nat) : List Char → List Piece
  | [] => []
  | c :: cs =>
    if c = '?' then .mark next :: questions (next + 1) cs else .char c :: questions next cs

/-- The pieces of a text with dollar signs and numbers. -/
def dollars : List Char → List Piece
  | [] => []
  | c :: cs =>
    if c = '$' then
      .mark (Numeral.value (cs.takeWhile Char.isDigit)) :: dollars (cs.dropWhile Char.isDigit)
    else .char c :: dollars cs
termination_by cs => cs.length
decreasing_by
  · exact Nat.lt_succ_of_le (List.dropWhile_suffix _).length_le
  · exact Nat.lt_succ_self _

/-- The pieces of a statement. -/
def pieces (style : PlaceholderStyle) (text : String) : List Piece :=
  match style with
  | .question => questions 1 text.toList
  | .dollar => dollars text.toList

/-- The pieces of a text without placeholders. -/
def chars (w : List Char) : List Piece := w.map .char

/-- Pieces with commas between them. -/
def commas (items : List (List Piece)) : List Piece := [.char ','].intercalate items

/-- The items up to the parenthesis that closes a list. -/
def items (ps : List Piece) : List (List Piece) :=
  (ps.takeWhile (· ≠ .char ')')).splitOn (.char ',')

/-- The lists that begin with a placeholder directly behind some words, where `seen` stands between
the last placeholder and here. -/
def lists (opening seen : List Char) : List Piece → List (List (List Piece))
  | [] => []
  | .char c :: ps => lists opening (seen ++ [c]) ps
  | .mark k :: ps =>
    if opening <:+ seen then items (.mark k :: ps) :: lists opening [] ps else lists opening [] ps

/-- The lists of placeholders behind the word `IN`. -/
def inLists (ps : List Piece) : List (List (List Piece)) := lists "IN (".toList [] ps

/-- The parameter that an item stands for, whatever type it is to be read as. -/
def denoted (values : List α) : List Piece → Option α
  | .mark (n + 1) :: _ => values[n]?
  | _ => none

theorem commas_cons_cons (a b : List Piece) (as : List (List Piece)) :
    commas (a :: b :: as) = a ++ .char ',' :: commas (b :: as) := by
  rw [commas, List.intercalate_cons_cons, List.append_assoc]
  rfl

theorem numbers_append (as bs : List Piece) : numbers (as ++ bs) = numbers as ++ numbers bs :=
  List.filterMap_append

theorem numbers_chars (w : List Char) : numbers (chars w) = [] := by
  induction w with
  | nil => rfl
  | cons c w ih => exact ih

theorem numbers_commas (as : List (List Piece)) : numbers (commas as) = as.flatMap numbers := by
  induction as with
  | nil => rfl
  | cons a as ih =>
    cases as with
    | nil => simp [commas]
    | cons b as =>
      rw [commas_cons_cons, numbers_append, List.flatMap_cons, ← ih]
      rfl

/-! ### Question marks -/

theorem questions_append (n : Nat) (as bs : List Char) :
    questions n (as ++ bs) = questions n as ++ questions (n + as.count '?') bs := by
  induction as generalizing n with
  | nil => rfl
  | cons c cs ih =>
    rw [List.cons_append, questions, questions]
    by_cases hc : c = '?'
    · rw [if_pos hc, if_pos hc, ih, hc, List.count_cons_self, Nat.add_comm (cs.count '?'),
        Nat.add_assoc]
      rfl
    · rw [if_neg hc, if_neg hc, ih, List.count_cons_of_ne hc]
      rfl

theorem questions_of_notMem {w : List Char} (h : '?' ∉ w) (n : Nat) : questions n w = chars w := by
  induction w with
  | nil => rfl
  | cons c cs ih =>
    obtain ⟨hc, hcs⟩ := List.ne_and_not_mem_of_not_mem_cons h
    rw [questions, if_neg (Ne.symm hc), ih hcs]
    rfl

/-- Question marks number themselves. -/
theorem numbers_questions (n : Nat) (cs : List Char) :
    numbers (questions n cs) = List.range' n (cs.count '?') := by
  induction cs generalizing n with
  | nil => rfl
  | cons c cs ih =>
    rw [questions]
    by_cases hc : c = '?'
    · rw [if_pos hc, hc, List.count_cons_self, List.range'_succ]
      exact congrArg _ (ih (n + 1))
    · rw [if_neg hc, List.count_cons_of_ne hc]
      exact ih n

/-! ### Dollar signs -/

/-- A text does not begin with a digit, so it does not prolong a number before it. -/
def EndsNumber (cs : List Char) : Prop := ∀ c ∈ cs.head?, c.isDigit = false

theorem dollars_word_append {w : List Char} (h : '$' ∉ w) (cs : List Char) :
    dollars (w ++ cs) = chars w ++ dollars cs := by
  induction w with
  | nil => rfl
  | cons c w ih =>
    obtain ⟨hc, hw⟩ := List.ne_and_not_mem_of_not_mem_cons h
    rw [List.cons_append, dollars, if_neg (Ne.symm hc), ih hw]
    rfl

theorem dollars_placeholder_append (n : UInt64) {cs : List Char} (h : EndsNumber cs) :
    dollars ((placeholder .dollar n).toList ++ cs) = .mark n.toNat :: dollars cs := by
  have htext : (placeholder .dollar n).toList = '$' :: Numeral.digits n.toNat := by
    rw [placeholder, String.toList_append]
    exact congrArg ('$' :: ·) String.toList_ofList
  have hdigits : ∀ c ∈ Numeral.digits n.toNat, c.isDigit = true :=
    fun c => Numeral.isDigit_of_mem_digits
  have hrest : cs.takeWhile Char.isDigit = [] ∧ cs.dropWhile Char.isDigit = cs := by
    cases cs with
    | nil => exact ⟨rfl, rfl⟩
    | cons c cs => simp [h c rfl]
  rw [htext, List.cons_append, dollars, if_pos rfl, List.takeWhile_append_of_pos hdigits,
    List.dropWhile_append_of_pos hdigits, hrest.1, hrest.2, List.append_nil, Numeral.value_digits]

/-- Texts with commas between them are read one by one. -/
theorem dollars_intercalate_append {f : α → List Char} {g : α → List Piece} {as : List α}
    (h : ∀ a ∈ as, ∀ cs, EndsNumber cs → dollars (f a ++ cs) = g a ++ dollars cs)
    {cs : List Char} (hcs : EndsNumber cs) :
    dollars ([','].intercalate (as.map f) ++ cs) = commas (as.map g) ++ dollars cs := by
  induction as with
  | nil => rfl
  | cons a as ih =>
    obtain ⟨ha, has⟩ := List.forall_mem_cons.1 h
    cases as with
    | nil => simpa [commas] using ha cs hcs
    | cons b as =>
      have hcomma : EndsNumber (',' :: ([','].intercalate ((b :: as).map f) ++ cs)) := by
        intro c hc
        obtain rfl : ',' = c := Option.some.inj hc
        rfl
      have hrest : dollars (',' :: ([','].intercalate ((b :: as).map f) ++ cs)) =
          .char ',' :: (commas ((b :: as).map g) ++ dollars cs) := by
        rw [dollars, if_neg (by decide), ih has]
      rw [List.map_cons, List.map_cons, List.intercalate_cons_cons, List.append_assoc,
        List.append_assoc, List.singleton_append, ← List.map_cons, ha _ hcomma, hrest,
        List.map_cons, List.map_cons, List.map_cons, commas_cons_cons, List.append_assoc]
      rfl

/-! ### Lists of placeholders -/

/-- A list of placeholders as pieces. -/
def markList (ns : List Nat) : List Piece := commas (ns.map fun n => [.mark n])

theorem markList_cons_cons (m n : Nat) (ns : List Nat) :
    markList (m :: n :: ns) = .mark m :: .char ',' :: markList (n :: ns) := by
  rw [markList, List.map_cons, List.map_cons, commas_cons_cons]
  rfl

theorem numbers_markList (ns : List Nat) : numbers (markList ns) = ns := by
  rw [markList, numbers_commas, List.flatMap_map]
  exact List.flatMap_singleton' ns

theorem toList_placeholders (style : PlaceholderStyle) (count : Nat) (first : UInt64) :
    (placeholders style count first).toList =
      [','].intercalate
        ((parameterNumbers count first).map fun n => (placeholder style n).toList) := by
  rw [placeholders, String.toList_intercalate, List.map_map]
  rfl

theorem questions_placeholders (n count : Nat) (first : UInt64) :
    questions n (placeholders .question count first).toList = markList (List.range' n count) := by
  have hmarks : ((parameterNumbers count first).map fun n => (placeholder .question n).toList) =
      List.replicate count ['?'] := by
    rw [List.eq_replicate_iff]
    simp [parameterNumbers, placeholder]
  rw [toList_placeholders, hmarks]
  clear hmarks
  induction count generalizing n with
  | zero => rfl
  | succ count ih =>
    cases count with
    | zero => rfl
    | succ count =>
      rw [List.replicate_succ, List.replicate_succ, List.intercalate_cons_cons,
        ← List.replicate_succ, List.append_assoc, questions_append, List.singleton_append,
        List.range'_succ, List.range'_succ, markList_cons_cons, ← List.range'_succ, ← ih]
      rfl

/-- Parameters with numbers that are no larger than a word are numbered on. -/
theorem map_toNat_parameterNumbers {count : Nat} {first : UInt64}
    (h : first.toNat + count ≤ UInt64.size) :
    (parameterNumbers count first).map UInt64.toNat = List.range' first.toNat count := by
  rw [parameterNumbers, List.map_map, List.range'_eq_map_range]
  refine List.map_congr_left fun i hi => ?_
  have hlt := List.mem_range.1 hi
  show (first + UInt64.ofNat i).toNat = first.toNat + i
  rw [UInt64.toNat_add, UInt64.toNat_ofNat']
  simp only [UInt64.size] at h
  omega

theorem dollars_placeholders_append {count : Nat} (h : count < UInt64.size) {cs : List Char}
    (hcs : EndsNumber cs) :
    dollars ((placeholders .dollar count 1).toList ++ cs) =
      markList (List.range' 1 count) ++ dollars cs := by
  have hnumbers : (parameterNumbers count 1).map UInt64.toNat = List.range' 1 count :=
    map_toNat_parameterNumbers (Nat.add_comm 1 count ▸ h)
  rw [toList_placeholders, dollars_intercalate_append (g := fun n => [.mark n.toNat])
    (fun n _ cs hcs => dollars_placeholder_append n hcs) hcs, markList, ← hnumbers, List.map_map]
  rfl

/-! ### Reading lists -/

theorem lists_chars_append (opening seen w : List Char) (ps : List Piece) :
    lists opening seen (chars w ++ ps) = lists opening (seen ++ w) ps := by
  induction w generalizing seen with
  | nil => rw [List.append_nil]; rfl
  | cons c w ih =>
    rw [List.append_cons]
    exact ih (seen ++ [c])

/-- A list of placeholders begins nowhere but at its first one. -/
theorem lists_markList_append {opening : List Char} (h : ¬ opening <:+ [',']) (seen : List Char)
    (n : Nat) (ns : List Nat) (ps : List Piece) :
    lists opening seen (markList (n :: ns) ++ ps) =
      (if opening <:+ seen then [items (markList (n :: ns) ++ ps)] else []) ++
        lists opening [] ps := by
  have hmark : ∀ seen n ps, lists opening seen (.mark n :: ps) =
      (if opening <:+ seen then [items (.mark n :: ps)] else []) ++ lists opening [] ps := by
    intro seen n ps
    rw [lists]
    split <;> rfl
  induction ns generalizing seen n with
  | nil => exact hmark seen n ps
  | cons m ns ih =>
    have hrest : lists opening [','] (markList (m :: ns) ++ ps) = lists opening [] ps := by
      rw [ih, if_neg h, List.nil_append]
    rw [markList_cons_cons, List.cons_append, hmark]
    exact congrArg _ hrest

theorem mem_commas {p : Piece} {as : List (List Piece)} (h : p ∈ commas as) :
    p = .char ',' ∨ ∃ a ∈ as, p ∈ a := by
  induction as with
  | nil => cases h
  | cons a as ih =>
    cases as with
    | nil => exact .inr ⟨a, List.mem_cons_self, by simpa [commas] using h⟩
    | cons b as =>
      rw [commas_cons_cons, List.mem_append, List.mem_cons] at h
      rcases h with h | h | h
      · exact .inr ⟨a, List.mem_cons_self, h⟩
      · exact .inl h
      · exact (ih h).imp_right fun ⟨a, ha, hp⟩ => ⟨a, List.mem_cons_of_mem _ ha, hp⟩

/-- What stands between commas and a closing parenthesis is read item by item. -/
theorem items_commas_append {as : List (List Piece)} (hne : as ≠ [])
    (h : ∀ a ∈ as, .char ',' ∉ a ∧ .char ')' ∉ a) (ps : List Piece) :
    items (commas as ++ .char ')' :: ps) = as := by
  have hopen : ∀ p ∈ commas as, decide (p ≠ .char ')') = true := by
    intro p hp
    rw [decide_eq_true_eq]
    rcases mem_commas hp with rfl | ⟨a, ha, hp⟩
    · decide
    · rintro rfl
      exact (h a ha).2 hp
  rw [items, List.takeWhile_append_of_pos hopen, List.takeWhile_cons_of_neg (by simp),
    List.append_nil]
  exact List.splitOn_intercalate _ (fun a ha => (h a ha).1) hne

theorem items_markList_append {ns : List Nat} (hne : ns ≠ []) (ps : List Piece) :
    items (markList ns ++ .char ')' :: ps) = ns.map fun n => [.mark n] := by
  refine items_commas_append (by simpa using hne) (fun a ha => ?_) ps
  obtain ⟨n, -, rfl⟩ := List.mem_map.1 ha
  simp

/-- Consecutive placeholders stand for consecutive values. -/
theorem map_denoted_marks {values : List α} {skip count : Nat} (h : skip + count ≤ values.length) :
    ((List.range' (1 + skip) count).map fun n => [Piece.mark n]).map (denoted values) =
      ((values.drop skip).take count).map some := by
  have hmarks : ((List.range' (1 + skip) count).map fun n => [Piece.mark n]).map (denoted values) =
      (List.range' skip count).map (values[·]?) := by
    rw [← List.map_add_range', List.map_map, List.map_map]
    refine List.map_congr_left fun n _ => ?_
    show denoted values [.mark (1 + n)] = values[n]?
    rw [Nat.add_comm]
    rfl
  rw [hmarks]
  refine List.ext_getElem (by simp; omega) fun i hi hi' => ?_
  simp at hi
  simp [show skip + i < values.length by omega]

/-! ### Statements about listed ids -/

/-- Words with lists of placeholders between them. -/
def interleave : List (List Char) → List (List Nat) → List Piece
  | [], _ => []
  | w :: _, [] => chars w
  | w :: ws, ns :: lists => chars w ++ (markList ns ++ interleave ws lists)

/-- The words of a statement as characters. -/
def Listing.texts (l : Listing) : List (List Char) := l.words.map String.toList

/-- The lists that stand between the words are opened by the word `IN` and a parenthesis, and closed
by another. -/
structure Listing.Proper (l : Listing) : Prop where
  texts_ne_nil : l.texts ≠ []
  opens : ∀ w ∈ l.texts.dropLast, ['I', 'N', ' ', '('] <:+ w
  closes : ∀ w ∈ l.texts.tail, w.head? = some ')'
  plain : ∀ w ∈ l.texts, '?' ∉ w ∧ '$' ∉ w

/-- The characters of words that are spelled out, the first of them in two parts. -/
theorem Listing.texts_eq (l : Listing) (part part' : List Char) (rest : List (List Char))
    (h : l.words = (String.ofList part ++ String.ofList part') :: rest.map String.ofList) :
    l.texts = (part ++ part') :: rest := by
  have hrest : (rest.map String.ofList).map String.toList = rest := by
    rw [List.map_map]
    exact List.map_id'' (fun _ => String.toList_ofList) rest
  rw [texts, h, List.map_cons, hrest, String.toList_append, String.toList_ofList,
    String.toList_ofList]

set_option maxRecDepth 2000 in
theorem Listing.proper_statelessRuns : statelessRuns.Proper := by
  constructor <;> rw [texts_eq statelessRuns _ _ [_] rfl] <;> decide +kernel

set_option maxRecDepth 2000 in
theorem Listing.proper_links (strategy : LinkStrategy) : (links strategy).Proper := by
  cases strategy with
  | updateJoin => constructor <;> rw [texts_eq (links .updateJoin) _ _ [_] rfl] <;> decide +kernel
  | correlatedSubquery =>
    constructor <;> rw [texts_eq (links .correlatedSubquery) _ _ [_, _] rfl] <;> decide +kernel

/-- How often the list stands in a statement. -/
def Listing.places (l : Listing) : Nat := l.words.length - 1

/-- The lists are read as they stand between the words. -/
theorem lists_interleave {opening : List Char} (hcomma : ¬ opening <:+ [',']) (seen : List Char)
    {ws : List (List Char)} {nss : List (List Nat)} (hlength : ws.length = nss.length + 1)
    (hopens : ∀ w ∈ ws.dropLast, opening <:+ w) (hcloses : ∀ w ∈ ws.tail, w.head? = some ')')
    (hnss : ∀ ns ∈ nss, ns ≠ []) :
    lists opening seen (interleave ws nss) = nss.map fun ns => ns.map fun n => [.mark n] := by
  induction nss generalizing seen ws with
  | nil =>
    obtain ⟨w, rfl⟩ := List.length_eq_one_iff.1 hlength
    show lists opening seen (chars w) = []
    rw [← List.append_nil (chars w), lists_chars_append]
    rfl
  | cons ns nss ih =>
    obtain ⟨hns, hnss⟩ := List.forall_mem_cons.1 hnss
    match ws, hlength with
    | w :: w' :: ws, hlength =>
      obtain ⟨hopen, hopens⟩ := List.forall_mem_cons.1 hopens
      obtain ⟨w', rfl⟩ := List.head?_eq_some_iff.1 (hcloses w' List.mem_cons_self)
      have hrest := ih [] (Nat.succ.inj hlength) hopens
        (fun w hw => hcloses w (List.mem_cons_of_mem _ hw)) hnss
      have hitems : ∃ ps, interleave ((')' :: w') :: ws) nss = .char ')' :: ps := by
        cases nss <;> exact ⟨_, rfl⟩
      obtain ⟨ps, hps⟩ := hitems
      obtain ⟨n, ns, rfl⟩ := List.exists_cons_of_ne_nil hns
      rw [interleave, lists_chars_append, lists_markList_append hcomma, hrest,
        if_pos (hopen.trans (List.suffix_append _ _)), hps, items_markList_append hns]
      rfl

theorem numbers_interleave {ws : List (List Char)} {nss : List (List Nat)}
    (h : nss.length < ws.length) : numbers (interleave ws nss) = nss.flatten := by
  induction nss generalizing ws with
  | nil =>
    cases ws with
    | nil => rfl
    | cons w ws => exact numbers_chars w
  | cons ns nss ih =>
    cases ws with
    | nil => cases h
    | cons w ws =>
      rw [interleave, numbers_append, numbers_append, numbers_chars, numbers_markList,
        ih (Nat.lt_of_succ_lt_succ h)]
      rfl

theorem count_placeholders (count : Nat) (first : UInt64) :
    (placeholders .question count first).toList.count '?' = count := by
  have h := numbers_questions 0 (placeholders .question count first).toList
  rw [questions_placeholders, numbers_markList] at h
  simpa using (congrArg List.length h).symm

namespace Listing

theorem questions_words (count : Nat) (first : UInt64) {ws : List (List Char)} (hne : ws ≠ [])
    (h : ∀ w ∈ ws, '?' ∉ w) (next : Nat) :
    questions next ((placeholders .question count first).toList.intercalate ws) =
      interleave ws ((List.range (ws.length - 1)).map fun i =>
        List.range' (next + i * count) count) := by
  induction ws generalizing next with
  | nil => exact absurd rfl hne
  | cons w ws ih =>
    obtain ⟨hw, hws⟩ := List.forall_mem_cons.1 h
    cases ws with
    | nil =>
      rw [List.intercalate_singleton]
      exact questions_of_notMem hw next
    | cons w' ws =>
      have hnumbers : ((List.range ((w :: w' :: ws).length - 1)).map fun i =>
          List.range' (next + i * count) count) =
            List.range' next count :: (List.range ((w' :: ws).length - 1)).map fun i =>
              List.range' (next + count + i * count) count := by
        rw [List.length_cons, List.length_cons, Nat.add_sub_cancel, Nat.add_sub_cancel,
          List.range_succ_eq_map, List.map_cons, List.map_map, Nat.zero_mul]
        refine congrArg _ (List.map_congr_left fun i _ => ?_)
        show List.range' (next + (i + 1) * count) count = _
        rw [Nat.succ_mul, Nat.add_assoc, Nat.add_comm count]
      rw [List.intercalate_cons_cons, List.append_assoc, questions_append, questions_append,
        questions_of_notMem hw, List.count_eq_zero_of_not_mem hw, Nat.add_zero,
        questions_placeholders, count_placeholders, ih (List.cons_ne_nil _ _) hws, hnumbers]
      rfl

theorem dollars_words {count : Nat} (hcount : count < UInt64.size) {ws : List (List Char)}
    (hne : ws ≠ []) (h : ∀ w ∈ ws, '$' ∉ w) (hcloses : ∀ w ∈ ws.tail, w.head? = some ')') :
    dollars ((placeholders .dollar count 1).toList.intercalate ws) =
      interleave ws (List.replicate (ws.length - 1) (List.range' 1 count)) := by
  induction ws with
  | nil => exact absurd rfl hne
  | cons w ws ih =>
    obtain ⟨hw, hws⟩ := List.forall_mem_cons.1 h
    cases ws with
    | nil =>
      have hread := dollars_word_append hw []
      rw [List.append_nil] at hread
      rw [List.intercalate_singleton, hread, dollars, List.append_nil]
      rfl
    | cons w' ws =>
      have hends : EndsNumber ((placeholders .dollar count 1).toList.intercalate (w' :: ws)) := by
        obtain ⟨w', rfl⟩ := List.head?_eq_some_iff.1 (hcloses w' List.mem_cons_self)
        intro c hc
        rw [List.intercalate_cons_cons_left] at hc
        obtain rfl := Option.some.inj hc
        rfl
      rw [List.intercalate_cons_cons, List.append_assoc, dollars_word_append hw,
        dollars_placeholders_append hcount hends, ih (List.cons_ne_nil _ _) hws fun w hw =>
          hcloses w (List.mem_cons_of_mem _ hw)]
      rfl

theorem toList_text (l : Listing) (style : PlaceholderStyle) (count : Nat) :
    (l.text style count).toList = (placeholders style count 1).toList.intercalate l.texts :=
  String.toList_intercalate

theorem length_texts (l : Listing) : l.texts.length = l.words.length := List.length_map _

namespace Proper

variable {l : Listing}

theorem pieces_question (h : l.Proper) (count : Nat) :
    pieces .question (l.text .question count) = interleave l.texts
      ((List.range l.places).map fun i => List.range' (1 + i * count) count) := by
  show questions 1 (l.text .question count).toList = _
  rw [toList_text, questions_words count 1 h.texts_ne_nil fun w hw => (h.plain w hw).1,
    length_texts]
  rfl

theorem pieces_dollar (h : l.Proper) {count : Nat} (hcount : count < UInt64.size) :
    pieces .dollar (l.text .dollar count) =
      interleave l.texts (List.replicate l.places (List.range' 1 count)) := by
  show dollars (l.text .dollar count).toList = _
  rw [toList_text, dollars_words hcount h.texts_ne_nil (fun w hw => (h.plain w hw).2) h.closes,
    length_texts]
  rfl

theorem length_texts_eq (h : l.Proper) : l.texts.length = l.places + 1 := by
  have := List.length_pos_iff.2 h.texts_ne_nil
  rw [length_texts] at this ⊢
  rw [places]
  omega

/-- Whatever lists stand between the words, they are read as they are. -/
theorem inLists_interleave (h : l.Proper) {nss : List (List Nat)} (hlength : nss.length = l.places)
    (hnss : ∀ ns ∈ nss, ns ≠ []) :
    inLists (interleave l.texts nss) = nss.map fun ns => ns.map fun n => [.mark n] :=
  lists_interleave (by decide) [] (hlength ▸ h.length_texts_eq) h.opens h.closes hnss

/-- Each list with question marks has those behind the ones of the list before it. -/
theorem reads_question (h : l.Proper) {count : Nat} (hcount : 0 < count) :
    inLists (pieces .question (l.text .question count)) = (List.range l.places).map fun i =>
      (List.range' (1 + i * count) count).map fun n => [.mark n] := by
  rw [h.pieces_question, h.inLists_interleave (by simp) (by simp; omega), List.map_map]
  rfl

/-- The lists with dollar signs are all the same. -/
theorem reads_dollar (h : l.Proper) {count : Nat} (hcount : 0 < count)
    (hsize : count < UInt64.size) :
    inLists (pieces .dollar (l.text .dollar count)) =
      List.replicate l.places ((List.range' 1 count).map fun n => [.mark n]) := by
  rw [h.pieces_dollar hsize, h.inLists_interleave (by simp) (by simp; omega), List.map_replicate]

theorem numbers_question (h : l.Proper) (count : Nat) :
    numbers (pieces .question (l.text .question count)) = List.range' 1 (l.places * count) := by
  have hcount := numbers_questions 1 (l.text .question count).toList
  have hflatten : numbers (pieces .question (l.text .question count)) =
      ((List.range l.places).map fun i => List.range' (1 + i * count) count).flatten := by
    rw [h.pieces_question]
    exact numbers_interleave (by simp [h.length_texts_eq])
  have hlength : (l.text .question count).toList.count '?' = l.places * count := by
    have hlengths := congrArg List.length (hcount.symm.trans hflatten)
    simpa [Function.comp_def, List.map_const'] using hlengths
  rw [← hlength]
  exact hcount

theorem numbers_dollar (h : l.Proper) {count : Nat} (hcount : count < UInt64.size) :
    numbers (pieces .dollar (l.text .dollar count)) =
      (List.replicate l.places (List.range' 1 count)).flatten := by
  rw [h.pieces_dollar hcount]
  exact numbers_interleave (by simp [h.length_texts_eq])

end Proper

end Listing

end Timetable.Sql
