import Mathlib.Data.List.DropRight
import VprocSdk.Lib.Python

/-!
# Python texts

Paths, ranges and lists that a script turns into text. A list of texts is printed with brackets, quotes and
commas; a script that takes the brackets and the quotes out again is left with the texts and the commas.
-/

namespace Lib

universe u

variable {α : Type u}

/-! ### Paths and ranges -/

/-- What follows the last `a`, or everything. -/
def afterLast [DecidableEq α] (a : α) (xs : List α) : List α := xs.rtakeWhile fun x => x ≠ a

theorem afterLast_append [DecidableEq α] {a : α} {ys : List α} (h : a ∉ ys) (xs : List α) :
    afterLast a (xs ++ a :: ys) = ys := by
  have hall : ∀ y ∈ ys.reverse, decide (y ≠ a) = true := by
    intro y hy
    exact decide_eq_true fun heq => h (heq ▸ List.mem_reverse.1 hy)
  rw [afterLast, List.rtakeWhile, List.reverse_append, List.reverse_cons, List.append_assoc,
    List.takeWhile_append_of_pos hall, List.singleton_append, List.takeWhile_cons_of_neg (by simp),
    List.append_nil, List.reverse_reverse]

/-- `os.path.basename(path)`. -/
def basename (path : List Char) : List Char := afterLast '/' path

/-- `os.path.splitext(path)`: the dots a name begins with start no extension. -/
def splitext (path : List Char) : List Char × List Char :=
  let name := basename path
  let extension := afterLast '.' name
  let stem := name.take (name.length - (extension.length + 1))
  if '.' ∈ name ∧ stem.any (fun c => c ≠ '.') then
    (path.take (path.length - (extension.length + 1)), '.' :: extension)
  else (path, [])

example : splitext "out.d/fw.v2.C".toList = ("out.d/fw.v2".toList, ".C".toList) := by decide

example : splitext "out.d/..c".toList = ("out.d/..c".toList, []) := by decide

/-- `range(start, stop, step)`, for a step upwards. -/
def pyRange (start stop step : Int) : List Int :=
  (List.range ((stop - start + step - 1) / step).toNat).map fun k : Nat => start + step * (k : Int)

theorem flatMap_slices (xs : List α) (start size count : Nat) :
    ((List.range count).flatMap fun k => (xs.drop (start + size * k)).take size)
      = (xs.drop start).take (size * count) := by
  induction count with
  | zero => rw [Nat.mul_zero, List.take_zero, List.range_zero, List.flatMap_nil]
  | succ count ih =>
      rw [List.range_succ, List.flatMap_append, ih, List.flatMap_singleton, Nat.mul_succ, List.take_add,
        List.drop_drop]

/-! ### Lists as texts -/

/-- `text.strip(chars)`. -/
def strip (chars text : List Char) : List Char :=
  (text.dropWhile fun c => c ∈ chars).rdropWhile fun c => c ∈ chars

/-- `text.translate(None, chars)`. -/
def deleteChars (chars text : List Char) : List Char := text.filter fun c => c ∉ chars

def singleQuote : Char := Char.ofNat 39

def doubleQuote : Char := Char.ofNat 34

/-- `repr(text)`, of a text without quotes, backslashes and control characters. -/
def pyRepr (text : List Char) : List Char := singleQuote :: (text ++ [singleQuote])

/-- `str(texts)`. -/
def pyListText (texts : List (List Char)) : List Char :=
  '[' :: (([',', ' '] : List Char).intercalate (texts.map pyRepr) ++ [']'])

example : pyListText ["0x00".toList, "0x1F".toList] = "['0x00', '0x1F']".toList := by decide

theorem strip_ends {chars body : List Char} {first last : Char} (hfirst : first ∈ chars)
    (hlast : last ∈ chars) (hhead : ∀ c, body.head? = some c → c ∉ chars)
    (htail : ∀ c, body.getLast? = some c → c ∉ chars) :
    strip chars (first :: (body ++ [last])) = body := by
  rw [strip, List.dropWhile_cons, if_pos (decide_eq_true hfirst)]
  cases body with
  | nil =>
      rw [List.nil_append, List.dropWhile_cons, if_pos (decide_eq_true hlast)]
      rfl
  | cons c body =>
      have hc : ¬ decide (c ∈ chars) = true := by simpa using hhead c rfl
      rw [List.cons_append, List.dropWhile_cons, if_neg hc, ← List.cons_append, List.rdropWhile_concat,
        if_pos (decide_eq_true hlast), List.rdropWhile_eq_self_iff]
      intro hne
      simpa using htail _ (List.getLast?_eq_some_getLast hne)

theorem head_intercalate {sep : List α} {first : α} {texts : List (List α)}
    (h : ∀ text ∈ texts, text.head? = some first) (hne : texts ≠ []) :
    (sep.intercalate texts).head? = some first := by
  cases texts with
  | nil => exact absurd rfl hne
  | cons text texts =>
      have htext := h text List.mem_cons_self
      cases texts with
      | nil => rw [List.intercalate_singleton, htext]
      | cons text' texts =>
          rw [List.intercalate_cons_cons, List.append_assoc, List.head?_append, htext]
          rfl

theorem getLast_intercalate {sep : List α} {last : α} {texts : List (List α)}
    (h : ∀ text ∈ texts, text.getLast? = some last) (hne : texts ≠ []) :
    (sep.intercalate texts).getLast? = some last := by
  induction texts with
  | nil => exact absurd rfl hne
  | cons text texts ih =>
      cases texts with
      | nil =>
          rw [List.intercalate_singleton]
          exact h text List.mem_cons_self
      | cons text' texts =>
          rw [List.intercalate_cons_cons, List.getLast?_append,
            ih (fun t ht => h t (List.mem_cons_of_mem _ ht)) (List.cons_ne_nil _ _)]
          rfl

theorem mem_intercalate {sep : List α} {texts : List (List α)} {a : α} (h : a ∈ sep.intercalate texts) :
    a ∈ sep ∨ ∃ text ∈ texts, a ∈ text := by
  induction texts with
  | nil => cases h
  | cons text texts ih =>
      cases texts with
      | nil =>
          rw [List.intercalate_singleton] at h
          exact .inr ⟨text, List.mem_cons_self, h⟩
      | cons text' texts =>
          rw [List.intercalate_cons_cons, List.mem_append, List.mem_append] at h
          rcases h with (htext | hsep) | hrest
          · exact .inr ⟨text, List.mem_cons_self, htext⟩
          · exact .inl hsep
          · exact (ih hrest).imp_right fun hlater =>
              hlater.imp fun t ht => ⟨List.mem_cons_of_mem _ ht.1, ht.2⟩

theorem intercalate_append {sep : List α} {texts texts' : List (List α)} (h : texts ≠ []) (h' : texts' ≠ []) :
    sep.intercalate (texts ++ texts') = sep.intercalate texts ++ (sep ++ sep.intercalate texts') := by
  induction texts with
  | nil => exact absurd rfl h
  | cons text texts ih =>
      cases texts with
      | nil =>
          rw [List.singleton_append, List.intercalate_singleton, List.intercalate_cons_of_ne_nil h',
            List.append_assoc]
      | cons text' texts =>
          have hne : text' :: texts ++ texts' ≠ [] := List.cons_ne_nil _ _
          rw [List.cons_append, List.intercalate_cons_of_ne_nil hne, ih (List.cons_ne_nil _ _),
            List.intercalate_cons_cons, List.append_assoc (text ++ sep)]

theorem intercalate_rows {sep : List α} {texts : List (List α)} {rows : List (List (List α))}
    (h : texts ≠ []) (hrows : ∀ row ∈ rows, row ≠ []) :
    sep.intercalate (texts ++ rows.flatten)
      = sep.intercalate texts ++ rows.flatMap fun row => sep ++ sep.intercalate row := by
  induction rows generalizing texts with
  | nil => rw [List.flatten_nil, List.append_nil, List.flatMap_nil, List.append_nil]
  | cons row rows ih =>
      have hrow := hrows row List.mem_cons_self
      rw [List.flatten_cons, ← List.append_assoc, ih (List.append_ne_nil_of_left_ne_nil h _) (fun r hr =>
        hrows r (List.mem_cons_of_mem _ hr)), intercalate_append h hrow, List.flatMap_cons, List.append_assoc]

theorem filter_intercalate (p : α → Bool) (sep : List α) (texts : List (List α)) :
    (sep.intercalate texts).filter p = (sep.filter p).intercalate (texts.map (List.filter p)) := by
  induction texts with
  | nil => rfl
  | cons text texts ih =>
      cases texts with
      | nil => rw [List.intercalate_singleton, List.map_cons, List.map_nil, List.intercalate_singleton]
      | cons text' texts =>
          rw [List.intercalate_cons_cons, List.filter_append, List.filter_append, ih]
          exact List.intercalate_cons_cons.symm

theorem listText_plain {texts : List (List Char)}
    (h : ∀ text ∈ texts, ∀ c ∈ text, c ≠ singleQuote ∧ c ≠ doubleQuote) :
    deleteChars [singleQuote, doubleQuote] (strip ['[', ']'] (pyListText texts))
      = ([',', ' '] : List Char).intercalate texts := by
  have hbody : strip ['[', ']'] (pyListText texts)
      = ([',', ' '] : List Char).intercalate (texts.map pyRepr) := by
    cases texts with
    | nil => decide
    | cons text texts =>
        have hquotes : ∀ quoted ∈ (text :: texts).map pyRepr,
            quoted.head? = some singleQuote ∧ quoted.getLast? = some singleQuote := by
          intro quoted hquoted
          obtain ⟨inner, -, rfl⟩ := List.mem_map.1 hquoted
          refine ⟨rfl, ?_⟩
          rw [pyRepr, ← List.cons_append, List.getLast?_concat]
        have hne : (text :: texts).map pyRepr ≠ [] := List.cons_ne_nil _ _
        apply strip_ends (by decide) (by decide)
        · intro c hc
          rw [head_intercalate (fun quoted hquoted => (hquotes quoted hquoted).1) hne] at hc
          rw [← Option.some.inj hc]
          decide
        · intro c hc
          rw [getLast_intercalate (fun quoted hquoted => (hquotes quoted hquoted).2) hne] at hc
          rw [← Option.some.inj hc]
          decide
  have hdelete : ∀ text ∈ texts, deleteChars [singleQuote, doubleQuote] (pyRepr text) = text := by
    intro text htext
    have hplain : text.filter (fun c => c ∉ [singleQuote, doubleQuote]) = text := by
      apply List.filter_eq_self.2
      intro c hc
      simpa using h text htext c hc
    rw [deleteChars, pyRepr, List.filter_cons_of_neg (by decide), List.filter_append, hplain,
      List.filter_cons_of_neg (by decide), List.filter_nil, List.append_nil]
  rw [hbody, deleteChars, filter_intercalate, List.map_map]
  exact congrArg _ ((List.map_congr_left hdelete).trans (List.map_id _))

end Lib
