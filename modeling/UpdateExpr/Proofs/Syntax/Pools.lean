import Mathlib.Data.List.Induction
import Mathlib.Logic.Function.Basic
import UpdateExpr.Syntax.Node

/-!
# Nodes with their data in pools

The nodes of an expression can be kept as headers of one size, and their data in pools, one for each
kind of data. A header says of which kind its node is, and at which place in the pool of this kind
the data stand; places and references are words, of 32 bits for example, and one of these stands for
none. The pools grow each at its own pace, yet a header leads to the data that its node was added
with, and to no others, as long as there is a word for each node.

## Main definitions

* `Pool`, `Pool.Data`, `Pool.kinds`: the pools, what they hold, and for which kinds of nodes
* `Words`, `Words.Room`: the words that places are written as, and that there are enough of them
* `Header`, `PooledArena`: the nodes in an array and their data in the pools
* `PooledArena.get?`, `PooledArena.read`: the header of a node, and its data in one of the pools
* `Addition`, `PooledArena.add`, `PooledArena.built`: the nodes that can be added, and what is built
* `PooledArena.Shows`: a header leads to what was added, and to nothing else
* `PooledArena.KeepsAll`: all that was added is read as it was, whatever is added later

## Main results

* `PooledArena.add_eq`: a node adds one header, and its data to one pool
* `PooledArena.Holds.add`, `PooledArena.holds_built`: headers and data stay linked
* `PooledArena.Linked.shows`: linked data is what is read
* `additions_kept`: what is read of the nodes that were added
-/

namespace UpdateExpr

/-! ## Pools -/

/-- The pools of data, one for each way to read a node. -/
inductive Pool where
  | identifiers
  | literals
  | accesses
  | calls
  | parens
  | updates
  | initializers
  deriving DecidableEq, Repr

/-- What is known of a literal. -/
structure LiteralData where
  value : LiteralValue
  text : String := ""
  flags : TokenFlags := {}
  deriving DecidableEq, Repr

/-- The parts of a member of an expression. -/
structure AccessData where
  target : NodeRef
  member : NodeRef
  deriving DecidableEq, Repr

/-- The parts of an update. -/
structure UpdateData where
  receiver : NodeRef
  entries : List NodeRef
  list : ListSpan := {}
  deriving DecidableEq, Repr

/-- The parts of an initializer. -/
structure InitializerData where
  name : NodeRef
  value : NodeRef
  deriving DecidableEq, Repr

namespace Pool

/-- What a pool holds. -/
def Data : Pool → Type
  | identifiers => String
  | literals => LiteralData
  | accesses => AccessData
  | calls | parens => NodeRef
  | updates => UpdateData
  | initializers => InitializerData

/-- The kinds of nodes whose data are in a pool. -/
def kinds : Pool → List Nat
  | identifiers => [TokenKind.identifier.code]
  | literals => [TokenKind.number.code, TokenKind.string.code]
  | accesses => [100]
  | calls => [101]
  | parens => [102]
  | updates => [103]
  | initializers => [104]

/-- **No two pools are for one kind of nodes.** -/
theorem eq_of_mem_kinds {k k' : Pool} : ∀ c ∈ k.kinds, c ∈ k'.kinds → k = k' := by
  cases k <;> cases k' <;> decide

end Pool

/-! ## Headers and pools -/

/-- The words that places are written as. -/
structure Words (ω : Type) where
  ofNat : Nat → ω
  toNat : ω → Nat
  /-- The word that stands for no place. -/
  none : ω

namespace Words

/-- Words of 32 bits, the largest of which stands for none. -/
def bits32 : Words UInt32 :=
  ⟨.ofNat, UInt32.toNat, 0xFFFFFFFF⟩

/-- A word for each place, and one for none. -/
def unlimited : Words (Option Nat) :=
  ⟨some, fun w => w.getD 0, Option.none⟩

variable {ω : Type} {W : Words ω} {m n : Nat}

/-- There are words for so many places. -/
def Room (W : Words ω) (n : Nat) : Prop :=
  ∀ m < n, W.toNat (W.ofNat m) = m ∧ W.ofNat m ≠ W.none

theorem Room.mono (h : W.Room n) (hle : m ≤ n) : W.Room m :=
  fun k hk => h k (Nat.lt_of_lt_of_le hk hle)

theorem room_unlimited (n : Nat) : unlimited.Room n :=
  fun _ _ => ⟨rfl, nofun⟩

theorem room_bits32 (h : n < UInt32.size) : bits32.Room n := by
  intro m hm
  have hm' : m + 1 < UInt32.size := Nat.lt_of_le_of_lt hm h
  have htoNat : (UInt32.ofNat m).toNat = m := UInt32.toNat_ofNat_of_lt' (Nat.lt_of_succ_lt hm')
  refine ⟨htoNat, fun heq => ?_⟩
  have hnone : (UInt32.ofNat m).toNat + 1 = UInt32.size :=
    congrArg (fun w : UInt32 => w.toNat + 1) heq
  rw [htoNat] at hnone
  exact Nat.ne_of_lt hm' hnone

/-- A word as a reference to a node. -/
def ref [DecidableEq ω] (W : Words ω) (w : ω) : NodeRef :=
  if w = W.none then Option.none else some (W.toNat w)

theorem ref_ofNat [DecidableEq ω] (h : W.Room (n + 1)) : W.ref (W.ofNat n) = some n := by
  obtain ⟨htoNat, hne⟩ := h n (Nat.lt_succ_self n)
  rw [ref, if_neg hne, htoNat]

end Words

/-- The flag of a node that stands for something the text lacks. -/
def missingFlag : UInt16 :=
  1

/-- What all nodes have: a kind, flags, a span, and the place of the data in its pool. -/
structure Header (ω : Type) where
  kind : Nat
  flags : UInt16
  span : Span
  place : ω
  deriving DecidableEq, Repr

/-- Whether a node stands for something that the text lacks. -/
def Header.isMissing {ω : Type} (h : Header ω) : Bool :=
  h.flags &&& missingFlag ≠ 0

/-- The headers of some nodes, and their data. -/
structure PooledArena (ω : Type) where
  headers : Array (Header ω) := #[]
  pools : (k : Pool) → Array k.Data := fun _ => #[]

/-- A node that can be added, with its data and its place in the text. -/
inductive Addition where
  /-- A token that has no data, of whatever kind. -/
  | token (kind : TokenKind) (span : Span)
  | identifier (name : String) (span : Span)
  /-- A name that is missing at a position. -/
  | missing (position : Nat)
  /-- A literal, of one of the two kinds that there are; nothing is asked of the value. -/
  | literal (kind : TokenKind) (hkind : kind = .number ∨ kind = .string) (data : LiteralData)
    (span : Span)
  | access (data : AccessData) (span : Span)
  | call (target : NodeRef) (span : Span)
  | paren (inner : NodeRef) (span : Span)
  | update (data : UpdateData) (span : Span)
  | initializer (data : InitializerData) (span : Span)

namespace PooledArena

section Operations

variable {ω : Type} (s : PooledArena ω) (W : Words ω)

/-- A new header behind the others, and its number. -/
def push (kind : Nat) (span : Span) (place : ω) : ω × PooledArena ω :=
  (W.ofNat s.headers.size, { s with headers := s.headers.push ⟨kind, 0, span, place⟩ })

/-- New data in a pool, and a header that leads to them. -/
def keep (k : Pool) (x : k.Data) (kind : Nat) (span : Span) : ω × PooledArena ω :=
  let place := W.ofNat (s.pools k).size
  { s with pools := Function.update s.pools k ((s.pools k).push x) }.push W kind span place

/-- The node with a number marked as missing. -/
def markMissing (w : ω) : PooledArena ω :=
  { s with
    headers := s.headers.modify (W.toNat w) fun h => { h with flags := h.flags ||| missingFlag } }

/-- A new node, and its number. -/
def add : Addition → ω × PooledArena ω
  | .token kind span => s.push W kind.code span W.none
  | .identifier name span => s.keep W .identifiers name TokenKind.identifier.code span
  | .missing position =>
    let (w, s) := s.keep W .identifiers "" TokenKind.identifier.code (.point position)
    (w, s.markMissing W w)
  | .literal kind _ data span => s.keep W .literals data kind.code span
  | .access data span => s.keep W .accesses data 100 span
  | .call target span => s.keep W .calls target 101 span
  | .paren inner span => s.keep W .parens inner 102 span
  | .update data span => s.keep W .updates data 103 span
  | .initializer data span => s.keep W .initializers data 104 span

/-- What is built of some nodes, one after another. -/
def built (additions : List Addition) : PooledArena ω :=
  additions.foldl (fun s a => (s.add W a).2) {}

/-- The header of a node. -/
def get? (r : NodeRef) : Option (Header ω) :=
  r.bind fun n => s.headers[n]?

/-- The place of a node in the text; an empty one for a reference to none. -/
def span (r : NodeRef) : Span :=
  ((s.get? r).map Header.span).getD {}

variable [DecidableEq ω]

/-- The data of a node in one of the pools; there are none for a node of another kind. -/
def read (k : Pool) (h : Header ω) : Option k.Data :=
  if h.place ≠ W.none ∧ h.kind ∈ k.kinds then (s.pools k)[W.toNat h.place]? else none

/-- The name of an identifier; the empty one for any other node, and where the name is missing. -/
def name (r : NodeRef) : String :=
  ((s.get? r).bind (s.read W .identifiers)).getD ""

end Operations

end PooledArena

/-! ## What was added -/

namespace Addition

/-- The number of the kind of a node. -/
def kind : Addition → Nat
  | token kind _ | literal kind _ _ _ => kind.code
  | identifier _ _ | missing _ => TokenKind.identifier.code
  | access _ _ => 100
  | call _ _ => 101
  | paren _ _ => 102
  | update _ _ => 103
  | initializer _ _ => 104

/-- The place of a node in the text. -/
def span : Addition → Span
  | token _ span | identifier _ span | literal _ _ _ span | access _ span | call _ span
  | paren _ span | update _ span | initializer _ span => span
  | missing position => .point position

/-- Whether a node is added as missing. -/
def isMissing : Addition → Bool
  | missing _ => true
  | _ => false

/-- The data that a node is added with, and the pool for them. -/
def entry? : Addition → Option ((k : Pool) × k.Data)
  | token _ _ => none
  | identifier name _ => some ⟨.identifiers, name⟩
  | missing _ => some ⟨.identifiers, ""⟩
  | literal _ _ data _ => some ⟨.literals, data⟩
  | access data _ => some ⟨.accesses, data⟩
  | call target _ => some ⟨.calls, target⟩
  | paren inner _ => some ⟨.parens, inner⟩
  | update data _ => some ⟨.updates, data⟩
  | initializer data _ => some ⟨.initializers, data⟩

/-- What a node is. -/
def shape : Addition → NodeShape
  | token kind _ => .token kind
  | identifier name _ => .identifier name
  | missing _ => .identifier ""
  | literal _ _ data _ => .literal data.value data.text data.flags
  | access data _ => .access data.target data.member
  | call target _ => .call target
  | paren inner _ => .paren inner
  | update data _ => .update data.receiver data.entries data.list
  | initializer data _ => .initializer data.name data.value

/-- A node with all of its data in one place. -/
def node (a : Addition) : Node :=
  ⟨a.shape, a.span, a.isMissing⟩

theorem kind_mem_kinds {a : Addition} {k : Pool} {x : k.Data} (h : a.entry? = some ⟨k, x⟩) :
    a.kind ∈ k.kinds := by
  cases a with
  | token kind span => cases h
  | literal kind hkind data span =>
    cases h
    rcases hkind with rfl | rfl <;> simp [kind, Pool.kinds]
  | _ =>
    cases h
    exact List.mem_singleton_self _

/-- A node is an identifier exactly if its data are a name. -/
theorem shape_eq_identifier_iff {a : Addition} {name : String} :
    a.shape = .identifier name ↔ a.entry? = some ⟨.identifiers, name⟩ := by
  cases a with
  | identifier _ _ | missing _ =>
    rw [shape, entry?]
    constructor
    · rintro ⟨⟩
      rfl
    · intro h
      cases h
      rfl
  | _ => exact iff_of_false nofun nofun

end Addition

namespace PooledArena

variable {ω : Type} {W : Words ω} {s : PooledArena ω} {a : Addition} {h : Header ω}
  {additions : List Addition}

/-! ## Adding a node -/

/-- The place for the data of a node. -/
def placeOf (W : Words ω) (s : PooledArena ω) (a : Addition) : ω :=
  match a.entry? with
  | none => W.none
  | some ⟨k, _⟩ => W.ofNat (s.pools k).size

/-- The pools with the data of one more node. -/
def poolsWith (s : PooledArena ω) (a : Addition) : (k : Pool) → Array k.Data :=
  match a.entry? with
  | none => s.pools
  | some ⟨k, x⟩ => Function.update s.pools k ((s.pools k).push x)

/-- The header of a new node. -/
def headerOf (W : Words ω) (s : PooledArena ω) (a : Addition) : Header ω :=
  ⟨a.kind, if a.isMissing then missingFlag else 0, a.span, s.placeOf W a⟩

theorem modify_push_size {α : Type} (xs : Array α) (x : α) (f : α → α) :
    (xs.push x).modify xs.size f = xs.push (f x) := by
  apply Array.ext_getElem?
  intro i
  grind

/-- **A node adds one header, and its data to one pool.** -/
theorem add_eq (hroom : W.Room (s.headers.size + 1)) (a : Addition) : s.add W a =
    (W.ofNat s.headers.size, ⟨s.headers.push (s.headerOf W a), s.poolsWith a⟩) := by
  cases a with
  | missing position =>
    have hnumber := (hroom _ (Nat.lt_succ_self _)).1
    simp only [add, keep, push, markMissing, hnumber, modify_push_size]
    rfl
  | _ => rfl

/-- Adding a node leaves a pool as it is, or pushes the data of the node to it. -/
theorem poolsWith_cases (s : PooledArena ω) (a : Addition) (k : Pool) :
    s.poolsWith a k = s.pools k ∨ ∃ x, s.poolsWith a k = (s.pools k).push x := by
  rw [poolsWith]
  cases a.entry? with
  | none => exact .inl rfl
  | some entry =>
    obtain ⟨k', x⟩ := entry
    by_cases hk : k = k'
    · subst hk
      exact .inr ⟨x, Function.update_self ..⟩
    · exact .inl (Function.update_of_ne hk ..)

/-- What is in a pool stays at its place. -/
theorem getElem?_poolsWith {k : Pool} {x : k.Data} {j : Nat} (hx : (s.pools k)[j]? = some x)
    (a : Addition) : (s.poolsWith a k)[j]? = some x := by
  rcases s.poolsWith_cases a k with h | ⟨y, h⟩
  · rwa [h]
  · obtain ⟨hj, rfl⟩ := Array.getElem?_eq_some_iff.1 hx
    rw [h, Array.getElem?_push_lt hj]

theorem size_poolsWith_le (s : PooledArena ω) (a : Addition) (k : Pool) :
    (s.poolsWith a k).size ≤ (s.pools k).size + 1 := by
  rcases s.poolsWith_cases a k with h | ⟨x, h⟩
  · rw [h]
    exact Nat.le_succ _
  · rw [h]
    exact Nat.le_of_eq (Array.size_push _)

/-! ## Headers and their data -/

/-- A header says what was added, and leads to the data. -/
structure Linked (W : Words ω) (s : PooledArena ω) (h : Header ω) (a : Addition) : Prop where
  kind_eq : h.kind = a.kind
  span_eq : h.span = a.span
  isMissing_eq : h.isMissing = a.isMissing
  /-- Without data, there is no place. -/
  place_eq : a.entry? = none → h.place = W.none
  /-- Data are at the place in their pool. -/
  getElem?_eq : ∀ k x, a.entry? = some ⟨k, x⟩ →
    h.place ≠ W.none ∧ (s.pools k)[W.toNat h.place]? = some x

/-- What is read of a header: what was added, the data from their own pool only. -/
structure Shows [DecidableEq ω] (W : Words ω) (s : PooledArena ω) (h : Header ω) (a : Addition) :
    Prop where
  kind_eq : h.kind = a.kind
  span_eq : h.span = a.span
  isMissing_eq : h.isMissing = a.isMissing
  read_own : ∀ k x, a.entry? = some ⟨k, x⟩ → s.read W k h = some x
  read_other : ∀ k, (∀ x, a.entry? ≠ some ⟨k, x⟩) → s.read W k h = none

/-- **What a header is linked to is what is read of it.** -/
theorem Linked.shows [DecidableEq ω] (hl : s.Linked W h a) : s.Shows W h a where
  kind_eq := hl.kind_eq
  span_eq := hl.span_eq
  isMissing_eq := hl.isMissing_eq
  read_own k x hx := by
    obtain ⟨hplace, hdata⟩ := hl.getElem?_eq k x hx
    rw [read, if_pos ⟨hplace, hl.kind_eq ▸ Addition.kind_mem_kinds hx⟩, hdata]
  read_other k hk := by
    rw [read, if_neg]
    rintro ⟨hplace, hkind⟩
    cases hentry : a.entry? with
    | none => exact hplace (hl.place_eq hentry)
    | some entry =>
      obtain ⟨k', x⟩ := entry
      rw [hl.kind_eq] at hkind
      obtain rfl := Pool.eq_of_mem_kinds _ hkind (Addition.kind_mem_kinds hentry)
      exact hk x hentry

theorem Linked.add (hl : s.Linked W h a) (b : Addition) (headers : Array (Header ω)) :
    Linked W ⟨headers, s.poolsWith b⟩ h a where
  kind_eq := hl.kind_eq
  span_eq := hl.span_eq
  isMissing_eq := hl.isMissing_eq
  place_eq := hl.place_eq
  getElem?_eq k x hx := by
    obtain ⟨hplace, hdata⟩ := hl.getElem?_eq k x hx
    exact ⟨hplace, getElem?_poolsWith hdata b⟩

/-- A new header is linked to what is added, if there is a word for the place of the data. -/
theorem linked_headerOf (hroom : ∀ k, W.Room ((s.pools k).size + 1)) (a : Addition)
    (headers : Array (Header ω)) : Linked W ⟨headers, s.poolsWith a⟩ (s.headerOf W a) a where
  kind_eq := rfl
  span_eq := rfl
  isMissing_eq := by
    show decide ((if a.isMissing then missingFlag else 0) &&& missingFlag ≠ 0) = a.isMissing
    cases a.isMissing <;> decide
  place_eq hnone := by rw [headerOf, placeOf, hnone]
  getElem?_eq k x hx := by
    obtain ⟨htoNat, hne⟩ := hroom k _ (Nat.lt_succ_self _)
    rw [headerOf, placeOf, poolsWith, hx]
    dsimp only
    rw [htoNat, Function.update_self, Array.getElem?_push_size]
    exact ⟨hne, rfl⟩

/-- A store holds some nodes: it has a header for each, which is linked to it, and the pools have no
more data than there are nodes. -/
structure Holds (W : Words ω) (s : PooledArena ω) (additions : List Addition) : Prop where
  size_eq : s.headers.size = additions.length
  size_le : ∀ k, (s.pools k).size ≤ additions.length
  linked : ∀ (i : Nat) (a : Addition), additions[i]? = some a →
    ∃ h, s.headers[i]? = some h ∧ s.Linked W h a

theorem holds_empty : Holds W {} [] where
  size_eq := rfl
  size_le _ := Nat.le_refl _
  linked := nofun

/-- **A store that holds some nodes holds them with one more**, if there are words for all. -/
theorem Holds.add (hs : s.Holds W additions) (hroom : W.Room (additions.length + 1))
    (a : Addition) : (s.add W a).2.Holds W (additions ++ [a]) := by
  rw [add_eq (hs.size_eq ▸ hroom)]
  refine ⟨?_, fun k => ?_, fun i b hb => ?_⟩
  · rw [Array.size_push, hs.size_eq, List.length_append, List.length_singleton]
  · rw [List.length_append, List.length_singleton]
    exact Nat.le_trans (size_poolsWith_le s a k) (Nat.succ_le_succ (hs.size_le k))
  · rcases Nat.lt_or_ge i additions.length with hi | hi
    · rw [List.getElem?_append_left hi] at hb
      obtain ⟨h, hh, hl⟩ := hs.linked i b hb
      refine ⟨h, ?_, hl.add a _⟩
      obtain ⟨hlt, rfl⟩ := Array.getElem?_eq_some_iff.1 hh
      exact Array.getElem?_push_lt hlt
    · rw [List.getElem?_append_right hi, List.getElem?_singleton] at hb
      split at hb
      · next hzero =>
        cases hb
        obtain rfl : i = s.headers.size := by
          have := hs.size_eq
          omega
        refine ⟨_, Array.getElem?_push_size, linked_headerOf (fun k => ?_) a _⟩
        exact hroom.mono (Nat.succ_le_succ (hs.size_le k))
      · cases hb

/-- **The reference that is handed out for a new node leads to it.** -/
theorem Holds.ref_add [DecidableEq ω] (hs : s.Holds W additions)
    (hroom : W.Room (additions.length + 1)) (a : Addition) :
    W.ref (s.add W a).1 = some additions.length := by
  rw [add_eq (hs.size_eq ▸ hroom), hs.size_eq]
  exact Words.ref_ofNat hroom

/-! ## Building -/

theorem built_concat (additions : List Addition) (a : Addition) :
    built W (additions ++ [a]) = ((built W additions).add W a).2 := by
  rw [built, List.foldl_append]
  rfl

/-- **Headers and data stay linked**, as long as there is a word for each node. -/
theorem holds_built (hroom : W.Room additions.length) : (built W additions).Holds W additions := by
  induction additions using List.reverseRecOn with
  | nil => exact holds_empty
  | append_singleton additions a ih =>
    rw [List.length_append, List.length_singleton] at hroom
    rw [built_concat]
    exact (ih (hroom.mono (Nat.le_succ _))).add hroom a

/-- **A header stays as it is**, whatever is added later. -/
theorem getElem?_headers_built {i : Nat} (hh : (built W additions).headers[i]? = some h)
    (later : List Addition) (hroom : W.Room (additions ++ later).length) :
    (built W (additions ++ later)).headers[i]? = some h := by
  induction later using List.reverseRecOn with
  | nil => rwa [List.append_nil]
  | append_singleton later a ih =>
    rw [← List.append_assoc] at hroom ⊢
    rw [List.length_append, List.length_singleton] at hroom
    have hbefore := hroom.mono (Nat.le_succ _)
    obtain ⟨hlt, rfl⟩ := Array.getElem?_eq_some_iff.1 (ih hbefore)
    rw [built_concat, add_eq ((holds_built hbefore).size_eq ▸ hroom)]
    exact Array.getElem?_push_lt hlt

/-- **From the time at which a node is added on, it is read as it was added**, with one header. -/
theorem exists_header [DecidableEq ω] (hroom : W.Room additions.length) {i : Nat}
    (ha : additions[i]? = some a) : ∃ h, ∀ n, i < n →
      (built W (additions.take n)).get? (some i) = some h ∧
        (built W (additions.take n)).Shows W h a := by
  have hroom' : ∀ n, W.Room (additions.take n).length := fun n =>
    hroom.mono (List.length_take_le' n additions)
  have hlinked : ∀ n, i < n → ∃ h, (built W (additions.take n)).headers[i]? = some h ∧
      (built W (additions.take n)).Linked W h a := fun n hn =>
    (holds_built (hroom' n)).linked i a ((List.getElem?_take_of_lt hn).trans ha)
  obtain ⟨h, hh, -⟩ := hlinked (i + 1) (Nat.lt_succ_self i)
  refine ⟨h, fun n hn => ?_⟩
  have hsplit : additions.take n = additions.take (i + 1) ++ (additions.take n).drop (i + 1) := by
    conv_lhs => rw [← List.take_append_drop (i + 1) (additions.take n), List.take_take,
      Nat.min_eq_left hn]
  have hstays := getElem?_headers_built hh _ (hsplit ▸ hroom' n)
  rw [← hsplit] at hstays
  obtain ⟨h', hh', hl⟩ := hlinked n hn
  rw [hstays] at hh'
  cases hh'
  exact ⟨hstays, hl.shows⟩

end PooledArena

/-! ## The arena of the nodes -/

section KeepsAll

open PooledArena

variable {ω : Type} [DecidableEq ω] {W : Words ω} {s : PooledArena ω} {additions : List Addition}

/-- The arena of some nodes, added one after another. -/
def Addition.arena (additions : List Addition) : Arena :=
  additions.foldl (fun arena a => arena.push a.node) {}

theorem get?_arena (additions : List Addition) (i : Nat) :
    (Addition.arena additions).get? (some i) = additions[i]?.map Addition.node := by
  have hnodes : (Addition.arena additions).nodes.toList = additions.map Addition.node := by
    induction additions using List.reverseRecOn with
    | nil => rfl
    | append_singleton additions a ih =>
      have hpush : Addition.arena (additions ++ [a]) = (Addition.arena additions).push a.node :=
        List.foldl_append
      rw [hpush, List.map_append, ← ih]
      exact Array.toList_push
  rw [← List.getElem?_map, ← hnodes, Array.getElem?_toList]
  rfl

/-- **A reference leads to what was added under it**, in the pools as in the arena, or to
nothing. -/
theorem PooledArena.Holds.get?_cases (hs : s.Holds W additions) (r : NodeRef) :
    (s.get? r = none ∧ (Addition.arena additions).get? r = none) ∨
      ∃ h a, s.get? r = some h ∧ s.Shows W h a ∧
        (Addition.arena additions).get? r = some a.node := by
  cases r with
  | none => exact .inl ⟨rfl, rfl⟩
  | some i =>
    rw [get?_arena]
    cases ha : additions[i]? with
    | none =>
      rw [List.getElem?_eq_none_iff, ← hs.size_eq] at ha
      exact .inl ⟨Array.getElem?_eq_none ha, rfl⟩
    | some a =>
      obtain ⟨h, hh, hl⟩ := hs.linked i a ha
      exact .inr ⟨h, a, hh, hl.shows, rfl⟩

theorem PooledArena.Holds.span_eq (hs : s.Holds W additions) (r : NodeRef) :
    s.span r = (Addition.arena additions).span r := by
  rw [PooledArena.span, Arena.span]
  rcases hs.get?_cases r with ⟨hget, harena⟩ | ⟨h, a, hget, hshows, harena⟩
  · rw [hget, harena]
    rfl
  · rw [hget, harena]
    exact hshows.span_eq

theorem PooledArena.Holds.name_eq (hs : s.Holds W additions) (r : NodeRef) :
    s.name W r = (Addition.arena additions).name r := by
  rw [PooledArena.name, Arena.name, Arena.shape?]
  rcases hs.get?_cases r with ⟨hget, harena⟩ | ⟨h, a, hget, hshows, harena⟩
  · rw [hget, harena]
    rfl
  · rw [hget, harena, Option.bind_some, Option.map_some]
    split
    · next name hname =>
      rw [hshows.read_own _ _ (Addition.shape_eq_identifier_iff.1 (Option.some.inj hname))]
      rfl
    · next hother =>
      rw [hshows.read_other .identifiers fun name hname =>
        hother name (congrArg some (Addition.shape_eq_identifier_iff.2 hname))]
      rfl

/-- Pools keep some nodes as they were added, whatever is added later. -/
structure PooledArena.KeepsAll (W : Words ω) (additions : List Addition) : Prop where
  /-- The reference that is handed out for a node is the number of nodes before it. -/
  ref_eq : ∀ i a, additions[i]? = some a →
    W.ref ((built W (additions.take i)).add W a).1 = some i
  /-- It leads to one header from then on, of which is read what was added. -/
  shows : ∀ i a, additions[i]? = some a → ∃ h, ∀ n, i < n →
    (built W (additions.take n)).get? (some i) = some h ∧ (built W (additions.take n)).Shows W h a
  /-- Of a reference, the pools tell the place in the text as the arena does. -/
  span_eq : ∀ r, (built W additions).span r = (Addition.arena additions).span r
  /-- They tell the name as the arena does. -/
  name_eq : ∀ r, (built W additions).name W r = (Addition.arena additions).name r

theorem Words.Room.keepsAll (hroom : W.Room additions.length) : KeepsAll W additions where
  ref_eq i a ha := by
    have hlt := (List.getElem?_eq_some_iff.1 ha).1
    have hlength : (additions.take i).length = i := List.length_take_of_le (Nat.le_of_lt hlt)
    have hnext : W.Room ((additions.take i).length + 1) := by
      rw [hlength]
      exact hroom.mono hlt
    have href := (holds_built (hnext.mono (Nat.le_succ _))).ref_add hnext a
    rwa [hlength] at href
  shows i a ha := exists_header hroom ha
  span_eq := (holds_built hroom).span_eq
  name_eq := (holds_built hroom).name_eq

/-- **What is read of a node is what was added.** An arena has each node under the number of nodes
before it. Headers and pools have it under the same number, whatever is added later: the header says
the kind, the span, and whether the node is missing, the pool for such nodes has the data, and all
others have none for it. This holds without an end if there is a word for each place, and with words
of 32 bits if there is one for each node. -/
theorem additions_kept (additions : List Addition) :
    (∀ i, (Addition.arena additions).get? (some i) = additions[i]?.map Addition.node) ∧
      KeepsAll .unlimited additions ∧
      (additions.length < UInt32.size → KeepsAll .bits32 additions) :=
  ⟨get?_arena additions, (Words.room_unlimited _).keepsAll,
    fun hroom => (Words.room_bits32 hroom).keepsAll⟩

/-- A name, a missing one, a literal of the kind of strings that has an integer as its value, a
token of the kind of names, and a call of what is not there. -/
def mixedAdditions : List Addition :=
  [.identifier "a" ⟨0, 1⟩, .missing 1, .literal .string (.inr rfl) ⟨.int 1, "1", {}⟩ ⟨2, 3⟩,
    .token .identifier ⟨3, 4⟩, .call (some 9) ⟨0, 4⟩]

/-- The literal is the third node, and the first of its pool. -/
theorem additions_kept_of_mixed : mixedAdditions.length < UInt32.size ∧
    ∃ h, (built .bits32 mixedAdditions).get? (some 2) = some h ∧ h.kind = TokenKind.string.code ∧
      (built .bits32 mixedAdditions).read .bits32 .literals h =
        some (LiteralData.mk (.int 1) "1" {}) ∧
      (built .bits32 mixedAdditions).read .bits32 .identifiers h = none := by
  have hroom : mixedAdditions.length < UInt32.size := by decide
  obtain ⟨h, hh⟩ := ((additions_kept mixedAdditions).2.2 hroom).shows 2 _ rfl
  obtain ⟨hget, hshows⟩ := hh 5 (by decide)
  exact ⟨hroom, h, hget, hshows.kind_eq, hshows.read_own .literals _ rfl,
    hshows.read_other .identifiers nofun⟩

end KeepsAll

end UpdateExpr
