import Sable.Token.Kind

/-!
# Vocabularies

A vocabulary spells every keyword and every punctuator. Both tables list the spellings in table
order; no spelling is empty and none occurs twice in its table, so a word is at most one keyword.

## Main definitions

* `IsSpellingTable`: what a table of spellings has to satisfy.
* `Vocabulary`: a table of keywords and a table of punctuators.
* `Vocabulary.ofLists`: checks two lists, the keywords first.
* `Vocabulary.keyword?`: the keyword that a word spells.

## Main statements

* `tableFault?_eq_none_iff`: a list has no fault exactly when it is a table.
-/
namespace Sable

inductive VocabularyTable
  | keywords
  | punctuators
  deriving DecidableEq, Inhabited

def VocabularyTable.describe : VocabularyTable → String
  | .keywords => "keyword"
  | .punctuators => "symbol"

inductive VocabularyError
  | length (table : VocabularyTable) (expected found : Nat)
  | emptySpelling (table : VocabularyTable) (index : Nat)
  | duplicate (table : VocabularyTable) (spelling : String)
  deriving DecidableEq, Inhabited

def VocabularyError.message : VocabularyError → String
  | .length table expected found =>
    s!"{table.describe} table has {found} entries, expected {expected}"
  | .emptySpelling table index => s!"{table.describe} table entry {index} is empty"
  | .duplicate table spelling => s!"{table.describe} table spells '{spelling}' twice"

/-- The entries are `size` distinct words, none of them empty. -/
def IsSpellingTable (size : Nat) (entries : List String) : Prop :=
  entries.length = size ∧ "" ∉ entries ∧ entries.Nodup

/-- The first entry that is empty or stands among the `earlier` ones. -/
def entryFault? (table : VocabularyTable) (earlier : List String) (index : Nat) :
    List String → Option VocabularyError
  | [] => none
  | s :: rest =>
    if s = "" then some (.emptySpelling table index)
    else if s ∈ earlier then some (.duplicate table s)
    else entryFault? table (s :: earlier) (index + 1) rest

/-- What is wrong with a table; its length matters before its entries. -/
def tableFault? (table : VocabularyTable) (size : Nat) (entries : List String) :
    Option VocabularyError :=
  if entries.length = size then entryFault? table [] 0 entries
  else some (.length table size entries.length)

theorem entryFault?_eq_none_iff {table : VocabularyTable} {earlier : List String} {index : Nat}
    {entries : List String} :
    entryFault? table earlier index entries = none ↔
      "" ∉ entries ∧ entries.Nodup ∧ ∀ s ∈ entries, s ∉ earlier := by
  induction entries generalizing earlier index with
  | nil => simp [entryFault?]
  | cons s rest ih =>
    simp only [entryFault?]
    split
    · simp_all
    · split
      · simp_all
      · rw [ih]
        simp only [List.mem_cons, not_or, List.nodup_cons]
        grind

theorem tableFault?_eq_none_iff {table : VocabularyTable} {size : Nat} {entries : List String} :
    tableFault? table size entries = none ↔ IsSpellingTable size entries := by
  unfold tableFault? IsSpellingTable
  split <;> simp_all [entryFault?_eq_none_iff]

structure Vocabulary where
  keywords : List String
  punctuators : List String
  keywords_table : IsSpellingTable Keyword.all.length keywords
  punctuators_table : IsSpellingTable Punctuator.all.length punctuators

namespace Vocabulary

def ofLists (keywords punctuators : List String) : Except VocabularyError Vocabulary :=
  match hk : tableFault? .keywords Keyword.all.length keywords with
  | some fault => .error fault
  | none =>
    match hp : tableFault? .punctuators Punctuator.all.length punctuators with
    | some fault => .error fault
    | none =>
      .ok ⟨keywords, punctuators, tableFault?_eq_none_iff.1 hk, tableFault?_eq_none_iff.1 hp⟩

/-- Every word and sign has its standard spelling. -/
def standard : Vocabulary where
  keywords := Keyword.all.map Keyword.spelling
  punctuators := Punctuator.all.map Punctuator.spelling
  keywords_table := by unfold IsSpellingTable; decide
  punctuators_table := by unfold IsSpellingTable; decide

instance : Inhabited Vocabulary := ⟨standard⟩

def isStandard (v : Vocabulary) : Bool :=
  v.keywords == standard.keywords && v.punctuators == standard.punctuators

theorem index_lt_keywords (v : Vocabulary) (k : Keyword) : k.index < v.keywords.length := by
  rw [v.keywords_table.1]
  cases k <;> decide

theorem index_lt_punctuators (v : Vocabulary) (p : Punctuator) :
    p.index < v.punctuators.length := by
  rw [v.punctuators_table.1]
  cases p <;> decide

def keywordSpelling (v : Vocabulary) (k : Keyword) : String :=
  v.keywords.get ⟨k.index, v.index_lt_keywords k⟩

def punctuatorSpelling (v : Vocabulary) (p : Punctuator) : String :=
  v.punctuators.get ⟨p.index, v.index_lt_punctuators p⟩

def keyword? (v : Vocabulary) (word : String) : Option Keyword :=
  Keyword.all.find? (v.keywordSpelling · == word)

end Vocabulary

end Sable
