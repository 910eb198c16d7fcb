import Mathlib.Data.List.Induction
import Mathlib.Data.List.Nodup
import UpdateExpr.Text.NameTable

/-!
# An atom is as good as its text

A keeper of names hands out an atom for each text that it is given, and finds the text again. Names
can then be compared by their atoms: these are equal exactly if the texts are. The keepers here are
the table of names, which is searched for a text, and a map from texts to atoms beside a vector of
texts into which the atoms point. The atoms are numbers without an end, or words of 32 bits, which
are as good as long as there is one for each text.

## Main definitions

* `NameCall`, `NameCall.met`: what a keeper of names is asked, and the texts that it has met then
* `NameKeeper`: a way to keep names, with `NameKeeper.after` and `NameKeeper.Returned` for its state
  and its atoms after some calls
* `NameTable.keeper`, `AtomTable.keeper`: the keepers
* `NameKeeper.Canonical`: what atoms tell of texts

## Main results

* `NameKeeper.Lawful.holds_after`: a lawful keeper holds the texts that it has met
* `NameKeeper.Returned.eq_number`: an atom is the number of the place of its text among them
* `names_canonical`: what the atoms of these keepers tell
-/

namespace UpdateExpr

/-! ## Calls -/

/-- What a keeper of names is asked. -/
inductive NameCall where
  /-- The atom of a text, which is kept from then on. -/
  | intern (text : String)
  /-- The atom of a text, if it is kept. -/
  | find (text : String)
  deriving DecidableEq, Repr

namespace NameCall

/-- The text that is asked for. -/
def text : NameCall → String
  | intern text | find text => text

/-- The text that is kept from the call on. -/
def interned? : NameCall → Option String
  | intern text => some text
  | find _ => none

/-- The texts that are kept after some calls: the empty one first, and those that were interned, in
the order in which they were for the first time. -/
def met (calls : List NameCall) : List String :=
  ("" :: calls.filterMap interned?).eraseDups

variable {calls : List NameCall} {text : String}

theorem mem_met_iff : text ∈ met calls ↔ text = "" ∨ .intern text ∈ calls := by
  have hinterned : ∀ c, interned? c = some text ↔ c = .intern text := by
    intro c
    cases c <;> simp [interned?]
  simp [met, List.mem_eraseDups, hinterned]

theorem eraseDups_concat (texts : List String) (text : String) : (texts ++ [text]).eraseDups =
    if text ∈ texts then texts.eraseDups else texts.eraseDups ++ [text] := by
  rw [List.eraseDups_append]
  by_cases h : text ∈ texts <;> simp [List.removeAll, List.eraseDups_cons, h]

theorem met_find (calls : List NameCall) (text : String) :
    met (calls ++ [.find text]) = met calls := by
  rw [met, List.filterMap_append]
  exact congrArg (fun l => ("" :: l).eraseDups) (List.append_nil _)

theorem met_intern (calls : List NameCall) (text : String) : met (calls ++ [.intern text]) =
    if text ∈ met calls then met calls else met calls ++ [text] := by
  have hmem : text ∈ met calls ↔ text ∈ "" :: calls.filterMap interned? := List.mem_eraseDups
  simp only [hmem]
  rw [met, List.filterMap_append, ← List.cons_append]
  exact eraseDups_concat _ text

/-- What is met later comes behind. -/
theorem exists_met_append (calls later : List NameCall) :
    ∃ rest, met (calls ++ later) = met calls ++ rest := by
  rw [met, List.filterMap_append, ← List.cons_append, List.eraseDups_append]
  exact ⟨_, rfl⟩

theorem nodup_met (calls : List NameCall) : (met calls).Nodup := by
  induction calls using List.reverseRecOn with
  | nil => exact List.nodup_singleton _
  | append_singleton calls call ih =>
    cases call with
    | find text => rwa [met_find]
    | intern text =>
      rw [met_intern]
      split
      · exact ih
      · next hmem =>
        rw [← List.concat_eq_append]
        exact ih.concat hmem

end NameCall

open NameCall

/-! ## Keepers of names -/

/-- A way to keep names: its states, the atoms that a state has for texts, and the texts that it has
for atoms. -/
structure NameKeeper (σ α : Type) where
  empty : σ
  /-- The atom of a text, and the state in which it is kept. -/
  intern : σ → String → α × σ
  /-- The atom of a text that is kept. -/
  find? : σ → String → Option α
  resolve : σ → α → String
  /-- The number of texts that are kept. -/
  size : σ → Nat

namespace NameKeeper

section Run

variable {σ α : Type} (p : NameKeeper σ α)

/-- The answer to a call. -/
def answer (s : σ) : NameCall → Option α
  | .intern text => some (p.intern s text).1
  | .find text => p.find? s text

/-- The state after a call. -/
def step (s : σ) : NameCall → σ
  | .intern text => (p.intern s text).2
  | .find _ => s

/-- The state after some calls, one after another. -/
def after (calls : List NameCall) : σ :=
  calls.foldl p.step p.empty

/-- One of some calls asks for a text and is answered with an atom. -/
def Returned (calls : List NameCall) (text : String) (a : α) : Prop :=
  ∃ earlier call later, calls = earlier ++ call :: later ∧ call.text = text ∧
    p.answer (p.after earlier) call = some a

/-- What atoms tell of texts after some calls, if a number is given for each place. -/
structure Canonical (number : Nat → α) (calls : List NameCall) : Prop where
  /-- Two atoms that were returned are equal exactly if the texts are. -/
  eq_iff : ∀ text other a b, p.Returned calls text a → p.Returned calls other b →
    (a = b ↔ text = other)
  /-- An atom leads back to its text, whatever is asked later. -/
  resolve_eq : ∀ text a, p.Returned calls text a →
    ∀ later, p.resolve (p.after (calls ++ later)) a = text
  /-- The empty text has the first number. -/
  find?_empty : p.find? (p.after calls) "" = some (number 0)
  /-- A text that was met has the number of its place among them, and a new one gets the next. -/
  intern_eq : ∀ text, (p.intern (p.after calls) text).1 =
    number (if text ∈ met calls then (met calls).idxOf text else (met calls).length)
  /-- Just the texts that were met are found, under their numbers. -/
  find?_eq : ∀ text, p.find? (p.after calls) text =
    if text ∈ met calls then some (number ((met calls).idxOf text)) else none
  /-- Nothing is kept but what was met. -/
  size_eq : p.size (p.after calls) = (met calls).length
  /-- An atom that was never handed out leads to the empty text. -/
  resolve_unknown : ∀ a, (∀ text, ¬ p.Returned calls text a) → p.resolve (p.after calls) a = ""

/-- What a keeper does in a state that holds some texts. Atoms are numbers of places, and a place
can be read off an atom. -/
structure Lawful (number : Nat → α) (place : α → Nat) (Holds : σ → List String → Prop) : Prop where
  empty : Holds p.empty [""]
  intern_of_mem : ∀ {s texts text}, Holds s texts → text ∈ texts →
    p.intern s text = (number (texts.idxOf text), s)
  intern_of_notMem : ∀ {s texts text}, Holds s texts → text ∉ texts →
    (p.intern s text).1 = number texts.length ∧ Holds (p.intern s text).2 (texts ++ [text])
  find?_eq : ∀ {s texts text}, Holds s texts →
    p.find? s text = if text ∈ texts then some (number (texts.idxOf text)) else none
  resolve_eq : ∀ {s texts}, Holds s texts → ∀ a, p.resolve s a = texts[place a]?.getD ""
  size_eq : ∀ {s texts}, Holds s texts → p.size s = texts.length
  number_place : ∀ a, number (place a) = a

end Run

section Lawful

variable {σ α : Type} {p : NameKeeper σ α} {number : Nat → α} {place : α → Nat}
  {Holds : σ → List String → Prop} {calls : List NameCall} {text : String} {a : α}

theorem after_concat (calls : List NameCall) (call : NameCall) :
    p.after (calls ++ [call]) = p.step (p.after calls) call :=
  List.foldl_concat ..

/-- **A lawful keeper holds the texts that it has met.** -/
theorem Lawful.holds_after (h : p.Lawful number place Holds) (calls : List NameCall) :
    Holds (p.after calls) (met calls) := by
  induction calls using List.reverseRecOn with
  | nil => exact h.empty
  | append_singleton calls call ih =>
    rw [after_concat]
    cases call with
    | find text =>
      rw [met_find]
      exact ih
    | intern text =>
      rw [met_intern]
      split
      · next hmem =>
        rw [step, h.intern_of_mem ih hmem]
        exact ih
      · next hmem => exact (h.intern_of_notMem ih hmem).2

/-- **A call is answered with the place of its text** among those that are kept after it. -/
theorem Lawful.answer_after (h : p.Lawful number place Holds) (calls : List NameCall)
    (call : NameCall) : p.answer (p.after calls) call =
      if call.text ∈ met (calls ++ [call]) then
        some (number ((met (calls ++ [call])).idxOf call.text)) else none := by
  have hholds := h.holds_after calls
  cases call with
  | find text =>
    rw [met_find]
    exact h.find?_eq hholds
  | intern text =>
    rw [answer, NameCall.text, met_intern]
    by_cases hmem : text ∈ met calls
    · rw [if_pos hmem, if_pos hmem, h.intern_of_mem hholds hmem]
    · rw [if_neg hmem, if_pos (List.mem_append_right _ (List.mem_singleton_self text)),
        (h.intern_of_notMem hholds hmem).1, List.idxOf_append_of_notMem hmem, List.idxOf_cons_self,
        Nat.add_zero]

/-- **An atom is the number of the place of its text** among those that were met. -/
theorem Returned.eq_number (h : p.Lawful number place Holds) (hr : p.Returned calls text a) :
    text ∈ met calls ∧ a = number ((met calls).idxOf text) := by
  obtain ⟨earlier, call, later, rfl, rfl, ha⟩ := hr
  rw [h.answer_after] at ha
  obtain ⟨rest, hrest⟩ := exists_met_append (earlier ++ [call]) later
  rw [List.append_assoc, List.singleton_append] at hrest
  split at ha
  · next hmem =>
    rw [hrest, List.idxOf_append_of_mem hmem]
    exact ⟨List.mem_append_left _ hmem, (Option.some.inj ha).symm⟩
  · cases ha

/-- Each text but the empty one was interned, and its atom returned then. -/
theorem Lawful.returned (h : p.Lawful number place Holds) (hmem : text ∈ met calls)
    (hne : text ≠ "") : p.Returned calls text (number ((met calls).idxOf text)) := by
  obtain ⟨earlier, later, rfl⟩ := List.append_of_mem ((mem_met_iff.1 hmem).resolve_left hne)
  have hr : p.Returned (earlier ++ .intern text :: later) text
      (p.intern (p.after earlier) text).1 :=
    ⟨earlier, .intern text, later, rfl, rfl, rfl⟩
  rwa [← (hr.eq_number h).2]

/-- **The atoms of a lawful keeper are as good as their texts**, if it can tell the places apart. -/
theorem Lawful.canonical (h : p.Lawful number place Holds)
    (hplace : ∀ k < (met calls).length, place (number k) = k) : p.Canonical number calls where
  eq_iff text other a b ha hb := by
    obtain ⟨hmem, rfl⟩ := ha.eq_number h
    obtain ⟨hmem', rfl⟩ := hb.eq_number h
    rw [← List.idxOf_inj hmem]
    constructor
    · intro heq
      rw [← hplace _ (List.idxOf_lt_length_iff.2 hmem), heq,
        hplace _ (List.idxOf_lt_length_iff.2 hmem')]
    · exact congrArg number
  resolve_eq text a ha later := by
    obtain ⟨hmem, rfl⟩ := ha.eq_number h
    have hlt := List.idxOf_lt_length_iff.2 hmem
    obtain ⟨rest, hrest⟩ := exists_met_append calls later
    rw [h.resolve_eq (h.holds_after _), hplace _ hlt, hrest, List.getElem?_append_left hlt,
      List.getElem?_eq_getElem hlt, List.getElem_idxOf hlt, Option.getD_some]
  find?_empty := by
    rw [h.find?_eq (h.holds_after calls), if_pos (mem_met_iff.2 (.inl rfl)), met,
      List.eraseDups_cons, List.idxOf_cons_self]
  intern_eq text := by
    split
    · next hmem => rw [h.intern_of_mem (h.holds_after calls) hmem]
    · next hmem => exact (h.intern_of_notMem (h.holds_after calls) hmem).1
  find?_eq text := h.find?_eq (h.holds_after calls)
  size_eq := h.size_eq (h.holds_after calls)
  resolve_unknown a ha := by
    rw [h.resolve_eq (h.holds_after calls)]
    by_cases hlt : place a < (met calls).length
    · rw [List.getElem?_eq_getElem hlt, Option.getD_some]
      by_contra hne
      have hr := h.returned (List.getElem_mem hlt) hne
      rw [(nodup_met calls).idxOf_getElem _ hlt, h.number_place] at hr
      exact ha _ hr
    · rw [List.getElem?_eq_none (Nat.le_of_not_lt hlt), Option.getD_none]

end Lawful

end NameKeeper

/-! ## The table of names -/

namespace NameTable

/-- The table of names keeps names under their numbers. -/
def keeper : NameKeeper NameTable Nat where
  empty := empty
  intern := intern
  find? := find?
  resolve := resolve
  size := size

theorem find?_eq (t : NameTable) (text : String) : t.find? text =
    if text ∈ t.texts.toList then some (t.texts.toList.idxOf text) else none := by
  have hfind : t.find? text = t.texts.toList.idxOf? text :=
    List.findIdx?_toArray _ t.texts.toList
  rw [hfind]
  split
  · next hmem =>
    obtain ⟨n, hn⟩ := Option.isSome_iff_exists.1 (List.isSome_idxOf?.2 hmem)
    rw [List.idxOf_eq_getD_idxOf?, hn, Option.getD_some]
  · next hmem => exact List.idxOf?_eq_none_iff.2 hmem

/-- **The table of names keeps what it has met**, under numbers without an end. -/
theorem lawful_keeper : keeper.Lawful id id fun t texts => t.texts.toList = texts where
  empty := rfl
  intern_of_mem := by
    rintro t _ text rfl hmem
    show t.intern text = _
    rw [intern, find?_eq, if_pos hmem]
    rfl
  intern_of_notMem := by
    rintro t _ text rfl hmem
    show (t.intern text).1 = _ ∧ (t.intern text).2.texts.toList = _
    rw [intern, find?_eq, if_neg hmem]
    exact ⟨rfl, Array.toList_push⟩
  find?_eq := by
    rintro t _ text rfl
    exact t.find?_eq text
  resolve_eq := by
    rintro t _ rfl n
    show (t.texts[n]?).getD "" = _
    rw [Array.getElem?_toList]
    rfl
  size_eq := by
    rintro t _ rfl
    rfl
  number_place := fun _ => rfl

end NameTable

/-! ## A map and a vector -/

/-- A map from texts to atoms, and the texts that the atoms point to. -/
structure AtomTable (α : Type) where
  atoms : Std.HashMap String α
  texts : Array String

namespace AtomTable

section Operations

variable {α : Type} (number : Nat → α) (place : α → Nat)

/-- The table that holds the empty text only, under the first atom. -/
def empty : AtomTable α :=
  ⟨({} : Std.HashMap String α).insert "" (number 0), #[""]⟩

/-- The atom of a text that is in the map. -/
def find? (t : AtomTable α) (text : String) : Option α :=
  t.atoms[text]?

/-- The atom of a text; a new text gets the atom for the number of texts. -/
def intern (t : AtomTable α) (text : String) : α × AtomTable α :=
  match t.find? text with
  | some a => (a, t)
  | none =>
    let a := number t.texts.size
    (a, ⟨t.atoms.insert text a, t.texts.push text⟩)

/-- The text that an atom points to, or the first one if it points behind the end. -/
def resolve (t : AtomTable α) (a : α) : String :=
  (t.texts[place a]?.or t.texts[0]?).getD ""

/-- A map and a vector keep names. -/
def keeper : NameKeeper (AtomTable α) α where
  empty := empty number
  intern := intern number
  find? := find?
  resolve := resolve place
  size t := t.texts.size

end Operations

variable {α : Type} {number : Nat → α} {place : α → Nat}

/-- A table holds some texts if these are its texts, the first is the empty one, and the map leads
each to the atom for its place. -/
structure Holds (number : Nat → α) (t : AtomTable α) (texts : List String) : Prop where
  texts_eq : t.texts.toList = texts
  first : texts[0]? = some ""
  find?_eq : ∀ text, t.find? text =
    if text ∈ texts then some (number (texts.idxOf text)) else none

theorem holds_empty : Holds number (empty number) [""] where
  texts_eq := rfl
  first := rfl
  find?_eq text := by
    rw [find?, empty, Std.HashMap.getElem?_insert, Std.HashMap.getElem?_empty]
    by_cases h : "" = text
    · subst h
      rfl
    · rw [if_neg (by simpa using h), if_neg (by simpa using Ne.symm h)]

/-- **A new text goes behind the others**, and the map leads it there. -/
theorem Holds.push {t : AtomTable α} {texts : List String} {text : String}
    (h : Holds number t texts) (hnew : text ∉ texts) : Holds number
      ⟨t.atoms.insert text (number t.texts.size), t.texts.push text⟩ (texts ++ [text]) where
  texts_eq := by rw [Array.toList_push, h.texts_eq]
  first := by rw [List.getElem?_append_left (List.getElem?_eq_some_iff.1 h.first).1, h.first]
  find?_eq other := by
    have hsize : t.texts.size = texts.length := by rw [← h.texts_eq, Array.length_toList]
    rw [find?, Std.HashMap.getElem?_insert]
    by_cases heq : text = other
    · subst heq
      rw [if_pos (beq_self_eq_true _), if_pos (List.mem_append_right _ (List.mem_singleton_self _)),
        List.idxOf_append_of_notMem hnew, List.idxOf_cons_self, Nat.add_zero, hsize]
    · rw [if_neg (by simpa using heq)]
      show t.find? other = _
      rw [h.find?_eq]
      by_cases hmem : other ∈ texts
      · rw [if_pos hmem, if_pos (List.mem_append_left _ hmem), List.idxOf_append_of_mem hmem]
      · rw [if_neg hmem, if_neg (by simp [hmem, Ne.symm heq])]

/-- **A map and a vector keep what they have met**, whatever the atoms are from which a place can be
read. -/
theorem lawful_keeper (hnumber : ∀ a, number (place a) = a) :
    (keeper number place).Lawful number place (Holds number) where
  empty := holds_empty
  intern_of_mem := by
    intro t texts text h hmem
    show t.intern number text = _
    rw [intern, h.find?_eq, if_pos hmem]
  intern_of_notMem := by
    intro t texts text h hmem
    show (t.intern number text).1 = _ ∧ Holds number (t.intern number text).2 _
    rw [intern, h.find?_eq, if_neg hmem]
    exact ⟨by rw [← h.texts_eq, Array.length_toList], h.push hmem⟩
  find?_eq := fun h => h.find?_eq _
  resolve_eq := by
    intro t texts h a
    show (t.texts[place a]?.or t.texts[0]?).getD "" = _
    rw [← Array.getElem?_toList, ← Array.getElem?_toList, h.texts_eq, h.first]
    cases texts[place a]? <;> rfl
  size_eq := by
    intro t texts h
    show t.texts.size = _
    rw [← h.texts_eq, Array.length_toList]
  number_place := hnumber

/-- The vector holds the texts of the table of names, and the map leads each to the atom for its
number. -/
theorem after_eq (hnumber : ∀ a, number (place a) = a) (calls : List NameCall) :
    ((keeper number place).after calls).texts = (NameTable.keeper.after calls).texts ∧
      ∀ text, ((keeper number place).after calls).find? text =
        ((NameTable.keeper.after calls).find? text).map number := by
  have htable := NameTable.lawful_keeper.holds_after calls
  have hatoms := (lawful_keeper hnumber).holds_after calls
  refine ⟨Array.toList_inj.1 (hatoms.texts_eq.trans htable.symm), fun text => ?_⟩
  rw [hatoms.find?_eq, NameTable.find?_eq, htable]
  split <;> rfl

/-- A map and a vector whose atoms are numbers without an end. -/
def unlimited : NameKeeper (AtomTable Nat) Nat :=
  keeper id id

/-- A map and a vector whose atoms are words of 32 bits. -/
def words : NameKeeper (AtomTable UInt32) UInt32 :=
  keeper UInt32.ofNat UInt32.toNat

end AtomTable

/-! ## Atoms and texts -/

/-- **Atoms are as good as texts.** Whatever a keeper of names is asked, two of its atoms are equal
exactly if the texts are, the texts are numbered in the order in which they were interned first,
with the empty one at `0`, and an atom leads back to its text from then on. Just the texts that were
interned are found, to look for one adds nothing, and an atom that was not given leads to the empty
text. This holds of the table of names, of a map and a vector with numbers, and with words of
32 bits if there is one for each text. The vector has the texts of the table, and the map leads each
to the word for its number. -/
theorem names_canonical (calls : List NameCall) :
    NameTable.keeper.Canonical id calls ∧ AtomTable.unlimited.Canonical id calls ∧
      ((met calls).length ≤ UInt32.size → AtomTable.words.Canonical UInt32.ofNat calls) ∧
      (AtomTable.words.after calls).texts = (NameTable.keeper.after calls).texts ∧
      ∀ text, (AtomTable.words.after calls).find? text =
        ((NameTable.keeper.after calls).find? text).map UInt32.ofNat := by
  refine ⟨NameTable.lawful_keeper.canonical fun _ _ => rfl,
    (AtomTable.lawful_keeper fun _ => rfl).canonical fun _ _ => rfl, fun hroom => ?_,
    AtomTable.after_eq (fun _ => UInt32.ofNat_toNat) calls⟩
  refine (AtomTable.lawful_keeper fun _ => UInt32.ofNat_toNat).canonical fun k hk => ?_
  exact UInt32.toNat_ofNat_of_lt' (Nat.lt_of_lt_of_le hk hroom)

/-- A name that is looked for before it is interned, the empty one, another one, the first again,
and one that is never interned. -/
def repeatedCalls : List NameCall :=
  [.find "x", .intern "x", .intern "", .intern "y", .intern "x", .find "z"]

/-- There are words for the three texts. -/
theorem names_canonical_of_repeats :
    met repeatedCalls = ["", "x", "y"] ∧ (met repeatedCalls).length ≤ UInt32.size ∧
      AtomTable.words.Canonical UInt32.ofNat repeatedCalls :=
  ⟨by decide, by decide, (names_canonical repeatedCalls).2.2.1 (by decide)⟩

end UpdateExpr
