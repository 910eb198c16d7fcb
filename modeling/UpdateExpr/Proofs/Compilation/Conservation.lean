import UpdateExpr.Proofs.Compilation.Order

/-!
# A batch loses and invents nothing

The results of a batch and its diagnostics travel by different routes: each result goes to the slot
of its request, while all that is reported goes to one sink, which is sorted in the end. Here a
batch is followed request by request, with the sink that its requests share. Whatever point the
batch is cancelled at, the slots before that point are those of a batch that is not cancelled, the
others are empty, and the sink has taken the diagnostics of the bound requests and of no other.

## Main definitions

* `Cancellation.begun`: the number of requests that are begun
* `Compilation.starts`: the requests of a batch, each with the table of types it starts from
* `Compilation.contribution`: what reading and binding one request report
* `Progress`, `Compilation.advance`: a batch underway, and what one more request makes of it
* `Batch.Conserved`: what is in the slots of a batch, and in its list

## Main results

* `Compilation.progress_eq`: followed request by request, a batch comes to what `bindAll` gives
* `Progress.Conserved.advance`: one more request keeps slots and sink in step
* `Compilation.bindAll_conserved`: a batch loses and invents nothing, under cancellation too
-/

namespace UpdateExpr

/-! ## The order of the list -/

namespace Diagnostic

theorem compare_string_eq_lt_iff (a b : String) : compare a b = .lt ↔ a < b := by
  show compareOfLessAndEq a b = .lt ↔ a < b
  unfold compareOfLessAndEq
  split
  · simp_all
  · split <;> simp_all

/-- The order of the sorted list, spelled out. -/
theorem le_iff {a b : Diagnostic} : le a b = true ↔
    a.file < b.file ∨ a.file = b.file ∧
      (a.start < b.start ∨ a.start = b.start ∧
        (a.length < b.length ∨ a.length = b.length ∧ a.code ≤ b.code)) := by
  simp only [le, order, compareLex, compareOn, Ordering.isLE_then_iff_or, compare_string_eq_lt_iff,
    Nat.compare_eq_lt, Std.compare_eq_iff_eq, Nat.isLE_compare]

end Diagnostic

/-! ## The point of cancellation -/

namespace Cancellation

/-- Those of some requests that are begun before the batch is cancelled. -/
def begun (c : Cancellation) (requests : List Request) : List Request :=
  match c with
  | never => requests
  | before first => requests.take first

variable (c : Cancellation)

theorem length_begun_le (requests : List Request) :
    (c.begun requests).length ≤ requests.length := by
  cases c with
  | never => exact le_rfl
  | before first => exact List.length_take_le' ..

theorem begun_append_singleton (requests : List Request) (r : Request) :
    c.begun (requests ++ [r]) =
      if c.skips requests.length then c.begun requests else c.begun requests ++ [r] := by
  cases c with
  | never => rfl
  | before first =>
    simp only [begun, skips, decide_eq_true_eq]
    split
    · exact List.take_append_of_le_length ‹_›
    · rw [List.take_of_length_le (by simp; omega), List.take_of_length_le (by omega)]

theorem length_begun_le_of_skips {n : Nat} (h : c.skips n = true) (requests : List Request) :
    (c.begun requests).length ≤ n := by
  cases c with
  | never => cases h
  | before first => exact (List.length_take_le ..).trans (of_decide_eq_true h)

/-- As long as no request is skipped, all are begun. -/
theorem begun_eq_self {requests : List Request} (h : c.skips requests.length = false) :
    c.begun requests = requests := by
  cases c with
  | never => rfl
  | before first =>
    simp only [skips, decide_eq_false_iff_not] at h
    exact List.take_of_length_le (by omega)

end Cancellation

namespace Compilation

/-! ## What a request starts from, and what it reports -/

section Starts

variable (c : Compilation) (types : TypeTable) (requests : List Request)

/-- The requests of a batch, each with the table of types that it starts from when those before it
are bound. -/
def starts (c : Compilation) : TypeTable → List Request → List (Request × TypeTable)
  | _, [] => []
  | types, r :: rest => (r, types) :: c.starts (c.bindRequest r types).2 rest

/-- The table of types after some requests were bound. -/
def typesAfter : TypeTable :=
  requests.foldl (fun types r => (c.bindRequest r types).2) types

/-- What is reported about a request that starts from a table of types: the diagnostics of its
reading, and behind them those of its binding. -/
def contribution (start : Request × TypeTable) : List Diagnostic :=
  let (r, types) := start
  let parsed := parse r.text
  let (_, bound) := (c.binder parsed r.scope).bind (some parsed.root)
    { types, bag := { file := r.file } }
  parsed.diagnostics r.file ++ bound.bag.entries

/-- The result of a request that starts from a table of types. -/
def resultFrom (start : Request × TypeTable) : RequestResult :=
  (c.bindRequest start.1 start.2).1

/-- The result of a request is about its file, has the nodes of its text, and reports just what the
request contributes. -/
theorem resultFrom_eq (start : Request × TypeTable) : ∃ expr, c.resultFrom start =
    { file := start.1.file
      arena := (parse start.1.text).arena
      expr
      bag := { file := start.1.file, entries := c.contribution start } } := by
  obtain ⟨r, types⟩ := start
  unfold resultFrom bindRequest contribution
  dsimp only
  -- What is bound does not matter here, so it is not looked into.
  generalize parse r.text = parsed
  rcases (c.binder parsed r.scope).bind _ _ with ⟨expr, bound⟩
  exact ⟨expr, rfl⟩

theorem entries_resultFrom (start : Request × TypeTable) :
    (c.resultFrom start).bag.entries = c.contribution start := by
  obtain ⟨expr, h⟩ := c.resultFrom_eq start
  rw [h]

theorem file_resultFrom (start : Request × TypeTable) :
    (c.resultFrom start).file = start.1.file := by
  obtain ⟨expr, h⟩ := c.resultFrom_eq start
  rw [h]

theorem arena_resultFrom (start : Request × TypeTable) :
    (c.resultFrom start).arena = (parse start.1.text).arena := by
  obtain ⟨expr, h⟩ := c.resultFrom_eq start
  rw [h]

theorem typesAfter_append_singleton (r : Request) :
    c.typesAfter types (requests ++ [r]) = (c.bindRequest r (c.typesAfter types requests)).2 := by
  rw [typesAfter, List.foldl_append]
  rfl

theorem starts_append_singleton (r : Request) :
    c.starts types (requests ++ [r]) =
      c.starts types requests ++ [(r, c.typesAfter types requests)] := by
  induction requests generalizing types with
  | nil => rfl
  | cons r' rest ih => exact congrArg ((r', types) :: ·) (ih _)

theorem starts_take (n : Nat) :
    c.starts types (requests.take n) = (c.starts types requests).take n := by
  induction requests generalizing types n with
  | nil => simp [starts]
  | cons r rest ih =>
    cases n with
    | zero => rfl
    | succ n => exact congrArg ((r, types) :: ·) (ih _ n)

/-- Each request starts once, in its place. -/
theorem map_fst_starts : (c.starts types requests).map Prod.fst = requests := by
  induction requests generalizing types with
  | nil => rfl
  | cons r rest ih => exact congrArg (r :: ·) (ih _)

theorem length_starts : (c.starts types requests).length = requests.length := by
  rw [← congrArg List.length (c.map_fst_starts types requests), List.length_map]

/-- A request that is begun starts from the same table as in a batch that is not cancelled. -/
theorem getElem?_starts_begun {cancellation : Cancellation} {i : Nat}
    (h : cancellation.skips i = false) :
    (c.starts types (cancellation.begun requests))[i]? = (c.starts types requests)[i]? := by
  cases cancellation with
  | never => rfl
  | before first =>
    have hi : i < first := Nat.lt_of_not_le (of_decide_eq_false h)
    rw [Cancellation.begun, c.starts_take, List.getElem?_take_of_lt hi]

theorem exists_getElem?_starts {i : Nat} {r : Request} (h : requests[i]? = some r) :
    ∃ t, (c.starts types requests)[i]? = some (r, t) := by
  rw [← c.map_fst_starts types requests, List.getElem?_map, Option.map_eq_some_iff] at h
  obtain ⟨⟨_, t⟩, hstart, rfl⟩ := h
  exact ⟨t, hstart⟩

end Starts

end Compilation

/-! ## A batch underway -/

/-- A batch underway: the table of types as it is by now, the slots of the requests that it has come
to, and the sink that takes all that is reported. -/
structure Progress where
  types : TypeTable
  results : List (Option RequestResult) := []
  sink : Sink := {}

namespace Compilation

variable (c : Compilation) (cancellation : Cancellation) (types : TypeTable)
  (requests : List Request)

/-- What the next request makes of a batch: it is skipped, or it is bound and its bag goes to the
sink. -/
def advance (p : Progress) (r : Request) : Progress :=
  if cancellation.skips p.results.length then { p with results := p.results ++ [none] }
  else
    let (x, types) := c.bindRequest r p.types
    { types, results := p.results ++ [some x], sink := p.sink.append x.bag }

/-- What some requests make of a batch, one after another. -/
def progress : Progress :=
  requests.foldl (c.advance cancellation) { types }

variable {c cancellation}

theorem advance_of_skips {p : Progress} (h : cancellation.skips p.results.length = true)
    (r : Request) : c.advance cancellation p r = { p with results := p.results ++ [none] } :=
  if_pos h

theorem advance_of_not_skips {p : Progress} (h : cancellation.skips p.results.length = false)
    (r : Request) : c.advance cancellation p r =
      { types := (c.bindRequest r p.types).2
        results := p.results ++ [some (c.resultFrom (r, p.types))]
        sink := p.sink.append (c.resultFrom (r, p.types)).bag } :=
  if_neg (ne_true_of_eq_false h)

theorem bindFrom_cons_of_skips {n : Nat} (h : cancellation.skips n = true) (r : Request) :
    c.bindFrom cancellation n (r :: requests) types =
      let (results, types) := c.bindFrom cancellation (n + 1) requests types
      (none :: results, types) := by
  rw [bindFrom, if_pos h]
  rfl

theorem bindFrom_cons_of_not_skips {n : Nat} (h : cancellation.skips n = false) (r : Request) :
    c.bindFrom cancellation n (r :: requests) types =
      let (results, last) := c.bindFrom cancellation (n + 1) requests (c.bindRequest r types).2
      (some (c.resultFrom (r, types)) :: results, last) := by
  rw [bindFrom, if_neg (ne_true_of_eq_false h)]
  rfl

/-- What is left of a batch fills the slots behind those that are filled, and reports to the sink as
it is by then. -/
theorem foldl_advance (p : Progress) :
    requests.foldl (c.advance cancellation) p =
      let (results, types) := c.bindFrom cancellation p.results.length requests p.types
      { types, results := p.results ++ results,
        sink := (Batch.bound ⟨results⟩).foldl (fun sink x => sink.append x.bag) p.sink } := by
  induction requests generalizing p with
  | nil =>
    obtain ⟨types, results, sink⟩ := p
    exact congrArg (Progress.mk types · sink) (List.append_nil results).symm
  | cons r rest ih =>
    rw [List.foldl_cons, ih]
    cases h : cancellation.skips p.results.length with
    | true =>
      rw [advance_of_skips h, bindFrom_cons_of_skips _ _ h, List.length_append]
      exact congrArg (Progress.mk _ · _) (List.append_assoc ..)
    | false =>
      rw [advance_of_not_skips h, bindFrom_cons_of_not_skips _ _ h, List.length_append]
      exact congrArg (Progress.mk _ · _) (List.append_assoc ..)

variable (c cancellation)

/-- **Followed request by request, a batch comes to what `bindAll` gives.** -/
theorem progress_eq :
    (c.progress cancellation types requests).results =
      (c.bindAll cancellation requests types).1.results ∧
    (c.progress cancellation types requests).sink.sorted =
      (c.bindAll cancellation requests types).1.diagnostics := by
  rw [progress, foldl_advance]
  exact ⟨rfl, rfl⟩

end Compilation

/-! ## What a batch keeps while it is underway -/

/-- Slots and sink are in step: of the requests that a batch has come to, those that were begun have
filled their slots and reported to the sink, and no other has. -/
structure Progress.Conserved (c : Compilation) (cancellation : Cancellation) (types : TypeTable)
    (done : List Request) (p : Progress) : Prop where
  table : p.types = c.typesAfter types (cancellation.begun done)
  slots : p.results =
    (c.starts types (cancellation.begun done)).map (fun start => some (c.resultFrom start)) ++
      List.replicate (done.length - (cancellation.begun done).length) none
  reported : p.sink.entries = (c.starts types (cancellation.begun done)).flatMap c.contribution

namespace Progress.Conserved

variable {c : Compilation} {cancellation : Cancellation} {types : TypeTable} {done : List Request}
  {p : Progress}

theorem length_eq (h : p.Conserved c cancellation types done) : p.results.length = done.length := by
  have hle := cancellation.length_begun_le done
  rw [h.slots, List.length_append, List.length_map, List.length_replicate, c.length_starts]
  omega

/-- **One more request keeps slots and sink in step.** -/
theorem advance (h : p.Conserved c cancellation types done) (r : Request) :
    (c.advance cancellation p r).Conserved c cancellation types (done ++ [r]) := by
  have hbegun := cancellation.begun_append_singleton done r
  cases hskip : cancellation.skips done.length with
  | true =>
    rw [if_pos hskip] at hbegun
    rw [Compilation.advance_of_skips (h.length_eq ▸ hskip)]
    refine ⟨?_, ?_, ?_⟩
    · rw [hbegun]
      exact h.table
    · rw [hbegun, List.length_append, List.length_singleton,
        Nat.succ_sub (cancellation.length_begun_le done), List.replicate_succ',
        ← List.append_assoc, ← h.slots]
    · rw [hbegun]
      exact h.reported
  | false =>
    have hall : cancellation.begun done = done := cancellation.begun_eq_self hskip
    have hlength := h.length_eq
    obtain ⟨htable, hslots, hreported⟩ := h
    rw [if_neg (ne_true_of_eq_false hskip), hall] at hbegun
    rw [hall] at htable hslots hreported
    rw [Nat.sub_self, List.replicate_zero, List.append_nil] at hslots
    have hstarts := c.starts_append_singleton types done r
    rw [← htable] at hstarts
    rw [Compilation.advance_of_not_skips (hlength ▸ hskip)]
    refine ⟨?_, ?_, ?_⟩
    · rw [hbegun, c.typesAfter_append_singleton, ← htable]
    · rw [hbegun, Nat.sub_self, List.replicate_zero, List.append_nil, hstarts, List.map_append,
        ← hslots]
      rfl
    · rw [hbegun, hstarts, List.flatMap_append, ← hreported]
      simp [c.entries_resultFrom]

/-- The slot of a request that was begun holds its result. -/
theorem getElem?_of_not_skips (h : p.Conserved c cancellation types done) {i : Nat}
    (hskip : cancellation.skips i = false) {start : Request × TypeTable}
    (hstart : (c.starts types done)[i]? = some start) :
    p.results[i]? = some (some (c.resultFrom start)) := by
  have hfilled : ((c.starts types (cancellation.begun done)).map
      fun start => some (c.resultFrom start))[i]? = some (some (c.resultFrom start)) := by
    rw [List.getElem?_map, c.getElem?_starts_begun types done hskip, hstart, Option.map_some]
  rw [h.slots, List.getElem?_append_left (List.getElem?_eq_some_iff.1 hfilled).1, hfilled]

/-- The slot of a request that was skipped is empty. -/
theorem getElem?_of_skips (h : p.Conserved c cancellation types done) {i : Nat}
    (hskip : cancellation.skips i = true) (hi : i < done.length) :
    p.results[i]? = some none := by
  have hle := cancellation.length_begun_le_of_skips hskip done
  rw [h.slots, List.getElem?_append_right (by rw [List.length_map, c.length_starts]; exact hle),
    List.length_map, c.length_starts, List.getElem?_replicate, if_pos (by omega)]

end Progress.Conserved

/-- A batch loses and invents nothing. -/
structure Batch.Conserved (c : Compilation) (cancellation : Cancellation) (types : TypeTable)
    (requests : List Request) (b : Batch) : Prop where
  /-- There is one slot for each request. -/
  length : b.results.length = requests.length
  /-- The slot of a request that was begun holds the result of binding this request, the same as in
  a batch that is not cancelled. The result says whether the request has reported one of the
  diagnostics of the list. -/
  begun : ∀ (i : Nat) (r : Request), requests[i]? = some r → cancellation.skips i = false →
    ∃ t x, (c.starts types requests)[i]? = some (r, t) ∧ x = (c.bindRequest r t).1 ∧
      b.results[i]? = some (some x) ∧
      (c.bindAll .never requests types).1.results[i]? = some (some x) ∧
      x.file = r.file ∧ x.arena = (parse r.text).arena ∧
      (x.hasDiagnostics = true ↔ ∃ d ∈ b.diagnostics, d ∈ c.contribution (r, t))
  /-- The slot of a request that was skipped is empty. -/
  skipped : ∀ i < requests.length, cancellation.skips i = true → b.results[i]? = some none
  /-- The list is sorted by file, start, length and number. -/
  sorted : b.diagnostics.Pairwise fun d e =>
    d.file < e.file ∨ d.file = e.file ∧
      (d.start < e.start ∨ d.start = e.start ∧
        (d.length < e.length ∨ d.length = e.length ∧ d.code ≤ e.code))
  /-- The list has what the requests that were begun have reported, each as often as it was, and
  nothing else. -/
  reported : b.diagnostics.Perm
    ((c.starts types (cancellation.begun requests)).flatMap c.contribution)

namespace Compilation

variable (c : Compilation) (cancellation : Cancellation) (types : TypeTable)
  (requests : List Request)

/-- Slots and sink are in step all the way. -/
theorem progress_conserved :
    (c.progress cancellation types requests).Conserved c cancellation types requests := by
  induction requests using List.reverseRecOn with
  | nil =>
    have hnone : cancellation.begun [] = [] := List.length_eq_zero_iff.1 <|
      Nat.le_zero.1 (cancellation.length_begun_le [])
    refine ⟨?_, ?_, ?_⟩ <;> rw [hnone] <;> rfl
  | append_singleton done r ih =>
    rw [progress, List.foldl_append]
    exact ih.advance r

/-- **A batch loses and invents nothing**, whatever requests it has and wherever it is cancelled. -/
theorem bindAll_conserved :
    (c.bindAll cancellation requests types).1.Conserved c cancellation types requests := by
  obtain ⟨hresults, hdiagnostics⟩ := c.progress_eq cancellation types requests
  have hresults' := (c.progress_eq .never types requests).1
  have h := c.progress_conserved cancellation types requests
  have h' := c.progress_conserved .never types requests
  have hreported : (c.bindAll cancellation requests types).1.diagnostics.Perm
      ((c.starts types (cancellation.begun requests)).flatMap c.contribution) := by
    rw [← hdiagnostics, ← h.reported]
    exact Sink.sorted_perm _
  refine ⟨?_, fun i r hr hskip => ?_, fun i hi hskip => ?_, ?_, hreported⟩
  · rw [← hresults, h.length_eq]
  · obtain ⟨t, hstart⟩ := c.exists_getElem?_starts types requests hr
    refine ⟨t, c.resultFrom (r, t), hstart, rfl, ?_, ?_, c.file_resultFrom _,
      c.arena_resultFrom _, ?_⟩
    · rw [← hresults, h.getElem?_of_not_skips hskip hstart]
    · rw [← hresults', h'.getElem?_of_not_skips rfl hstart]
    · have hmem : (r, t) ∈ c.starts types (cancellation.begun requests) :=
        List.mem_of_getElem? ((c.getElem?_starts_begun types requests hskip).trans hstart)
      have hsub : ∀ d ∈ c.contribution (r, t),
          d ∈ (c.bindAll cancellation requests types).1.diagnostics := fun d hd =>
        hreported.mem_iff.2 (List.mem_flatMap.2 ⟨(r, t), hmem, hd⟩)
      rw [RequestResult.hasDiagnostics, c.entries_resultFrom, Bool.not_eq_true',
        List.isEmpty_eq_false_iff_exists_mem]
      exact ⟨fun ⟨d, hd⟩ => ⟨d, hsub d hd, hd⟩, fun ⟨d, _, hd⟩ => ⟨d, hd⟩⟩
  · rw [← hresults, h.getElem?_of_skips hskip hi]
  · rw [← hdiagnostics]
    exact (Sink.pairwise_sorted _).imp Diagnostic.le_iff.1

end Compilation

end UpdateExpr
