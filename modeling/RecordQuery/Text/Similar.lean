/-! # Similar words

How much two words have in common, by the characters that they share in order: the longest run that
stands in both is shared, then what the parts before it share, and what the parts behind it share.

* `longestRun`: the longest run that two words share.
* `sharedCount`: how many characters two words share.
* `similarTo`: the words of a list that are similar to a word. -/

namespace RecordQuery.Text

/-- The length of the longest **common beginning** of two words. -/
def commonStart : List Char → List Char → Nat
  | a :: as, b :: bs => if a = b then commonStart as bs + 1 else 0
  | _, _ => 0

theorem commonStart_le : ∀ as bs : List Char, commonStart as bs ≤ as.length
  | [], _ => by simp [commonStart]
  | _ :: _, [] => by simp [commonStart]
  | a :: as, b :: bs => by
    have h := commonStart_le as bs
    simp only [commonStart, List.length_cons]
    split <;> omega

/-- A **run** of characters that two words share. -/
structure Run where
  /-- Where the run starts in the first word. -/
  first : Nat := 0
  /-- Where the run starts in the second word. -/
  second : Nat := 0
  /-- How many characters the run has. -/
  length : Nat := 0
deriving DecidableEq, Repr

/-- The **longer** of two runs, the former one if neither is longer. -/
def Run.longer (former later : Run) : Run := if former.length < later.length then later else former

/-- The longest run that the first word begins with, the earliest of those in the second word. -/
def runAtStart (as : List Char) : List Char → Run
  | [] => {}
  | b :: bs =>
    let later := runAtStart as bs
    (Run.mk 0 0 (commonStart as (b :: bs))).longer { later with second := later.second + 1 }

/-- The **longest run** that two words share: of several, the earliest in the first word, and of
those the earliest in the second. -/
def longestRun : List Char → List Char → Run
  | [], _ => {}
  | a :: as, bs =>
    let later := longestRun as bs
    (runAtStart (a :: as) bs).longer { later with first := later.first + 1 }

theorem runAtStart_le (as bs : List Char) :
    (runAtStart as bs).first + (runAtStart as bs).length ≤ as.length := by
  induction bs with
  | nil => simp [runAtStart]
  | cons b bs ih =>
    have h := commonStart_le as (b :: bs)
    simp only [runAtStart, Run.longer]
    split
    · exact ih
    · simp only
      omega

/-- A shared run lies within the first word. -/
theorem longestRun_le (as bs : List Char) :
    (longestRun as bs).first + (longestRun as bs).length ≤ as.length := by
  induction as with
  | nil => simp [longestRun]
  | cons a as ih =>
    have h := runAtStart_le (a :: as) bs
    simp only [longestRun, Run.longer, List.length_cons] at h ⊢
    split
    · simp only
      omega
    · exact h

/-- **How many characters** two words share. -/
def sharedCount (as bs : List Char) : Nat :=
  let run := longestRun as bs
  if _h : run.length = 0 then 0
  else
    sharedCount (as.take run.first) (bs.take run.second) + run.length +
      sharedCount (as.drop (run.first + run.length)) (bs.drop (run.second + run.length))
termination_by as.length
decreasing_by
  all_goals
    have hle := longestRun_le as bs
    have hpos : (longestRun as bs).length ≠ 0 := _h
    simp only [List.length_take, List.length_drop]
    omega

/-- A word that may be **similar** to another. -/
structure Likeness where
  /-- The word. -/
  word : String
  /-- How many characters the two words share. -/
  shared : Nat
  /-- How many characters the two words have together. -/
  total : Nat
deriving DecidableEq, Repr

namespace Likeness

/-- Whether the words are **similar**: the shared characters, counted in both words, are at least
three fifths of all. -/
def isSimilar (l : Likeness) : Bool := 3 * l.total ≤ 10 * l.shared

/-- Whether a word comes before another when the most similar ones come first. Equally similar words
are in reversed alphabetical order. -/
def before (l m : Likeness) : Bool :=
  let shares := l.shared * m.total
  let others := m.shared * l.total
  others < shares || (shares == others && m.word ≤ l.word)

end Likeness

/-- The **likeness** of a word to another. -/
def likeness (word other : String) : Likeness where
  word := other
  shared := sharedCount other.toList word.toList
  total := other.length + word.length

/-- The words among some that are **similar** to a word: of many the three most similar, in
alphabetical order. -/
def similarTo (word : String) (others : List String) : List String :=
  let similar := (others.map (likeness word)).filter Likeness.isSimilar
  (((similar.mergeSort Likeness.before).take 3).map (·.word)).mergeSort (· ≤ ·)

end RecordQuery.Text
