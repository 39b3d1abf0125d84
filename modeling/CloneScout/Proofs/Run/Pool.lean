import CloneScout.Run.Basic
import Mathlib.Algebra.GroupWithZero.Nat
import Mathlib.Data.List.Nodup
import Mathlib.Data.List.Perm.Lattice
import Mathlib.Logic.Relation

/-!
# Analysis by several workers

The files of a scan may be analysed by several workers at once. They share a counter: each takes the
next number, processes the file that has it and writes its result to the place of the file, until the
counter has passed the last file. Whatever the order of these steps, every number below the counter
has been taken by one worker, who holds it or has processed its file: `Pool.Sound`. Hence a pool that
has stopped has the results of the files in their order.
-/

namespace CloneScout.Run

/-- What a worker does next: take a number, process the file whose number it holds, or nothing. -/
inductive Worker where
  | free
  | holding (i : Nat)
  | stopped

/-- The number that a worker holds. -/
def Worker.held? : Worker → Option Nat
  | .holding i => some i
  | _ => none

/-- Workers with their common counter and a slot for each file. The numbers of processed files are
listed in the order of time. -/
structure Pool (α : Type) where
  next : Nat := 0
  workers : List Worker
  slots : List α
  processed : List Nat := []

/-- The number of workers for a number of files: as many as jobs are asked for, but not more than
files, and at least one. -/
def poolSize (jobs files : Nat) : Nat := min (max jobs 1) (max files 1)

theorem poolSize_pos (jobs files : Nat) : 0 < poolSize jobs files := by
  unfold poolSize
  omega

/-! ## Lists in which one element changes -/

section

variable {α β : Type} {f : α → Option β} {l : List α} {i : Nat} {a : α}

/-- An element is replaced by one that gives nothing. -/
theorem filterMap_set_none (h : l[i]? = some a) {a' : α} (ha : f a' = none) :
    ((f a).toList ++ (l.set i a').filterMap f).Perm (l.filterMap f) := by
  induction l generalizing i with
  | nil => exact nomatch h
  | cons x l ih =>
    cases i with
    | zero =>
      obtain rfl := Option.some.inj h
      cases hx : f x <;> simp [ha, hx]
    | succ i =>
      have htail := ih (i := i) h
      cases hx : f x with
      | none => simpa [List.filterMap_cons, hx] using htail
      | some y =>
        simp only [List.set_cons_succ, List.filterMap_cons, hx]
        exact List.perm_middle.trans (htail.cons y)

/-- An element that gives nothing is replaced. -/
theorem filterMap_set (h : l[i]? = some a) (ha : f a = none) (a' : α) :
    ((l.set i a').filterMap f).Perm ((f a').toList ++ l.filterMap f) := by
  have hlt : i < l.length := (List.getElem?_eq_some_iff.mp h).1
  have hback : (l.set i a').set i a = l := by
    rw [List.set_set, ← (List.getElem?_eq_some_iff.mp h).2, List.set_getElem_self]
  have hset : (l.set i a')[i]? = some a' := by simp [hlt]
  have hperm := filterMap_set_none hset ha
  rw [hback] at hperm
  exact hperm.symm

end

namespace Pool

variable {α : Type}

/-- Workers at the start of their work. -/
def start (n : Nat) (slots : List α) : Pool α := { workers := .replicate n .free, slots }

/-- One step of one worker. Taking a number and moving the counter on is one step, also when no file
has the number. -/
inductive Step (work : α → α) : Pool α → Pool α → Prop
  | take {p : Pool α} {w : Nat} (hw : p.workers[w]? = some .free) (hnext : p.next < p.slots.length) :
    Step work p { p with next := p.next + 1, workers := p.workers.set w (.holding p.next) }
  | stop {p : Pool α} {w : Nat} (hw : p.workers[w]? = some .free) (hnext : p.slots.length ≤ p.next) :
    Step work p { p with next := p.next + 1, workers := p.workers.set w .stopped }
  | process {p : Pool α} {w i : Nat} (hw : p.workers[w]? = some (.holding i)) :
    Step work p { p with
      workers := p.workers.set w .free
      slots := p.slots.modify i work
      processed := p.processed ++ [i] }

/-- Any number of steps, in any order of the workers. -/
abbrev Runs (work : α → α) : Pool α → Pool α → Prop := Relation.ReflTransGen (Step work)

/-- The numbers that workers hold. -/
def held (p : Pool α) : List Nat := p.workers.filterMap Worker.held?

def Stopped (p : Pool α) : Prop := ∀ w ∈ p.workers, w = .stopped

/-! ## What every step keeps -/

/-- Each number below the counter that a file has is held by one worker or stands for one file that
has been processed, and only processed slots have changed. -/
structure Sound (work : α → α) (slots : List α) (p : Pool α) : Prop where
  taken : (p.held ++ p.processed).Perm (.range (min p.next slots.length))
  length : p.slots.length = slots.length
  slot : ∀ i, p.slots[i]? = slots[i]?.map (if i ∈ p.processed then work else id)
  stopped : .stopped ∈ p.workers → slots.length ≤ p.next

variable {work : α → α} {slots : List α} {p q : Pool α}

theorem sound_start (n : Nat) : Sound work slots (start n slots) where
  taken := by simp [start, held, Worker.held?]
  length := rfl
  slot i := by simp [start]
  stopped h := by simp [start] at h

/-- A worker can only hold the number of a file that nobody else holds or has processed. -/
theorem Sound.notMem_processed (h : Sound work slots p) {i : Nat} (hi : i ∈ p.held) :
    i ∉ p.processed := by
  have hnodup : (p.held ++ p.processed).Nodup := h.taken.nodup_iff.mpr List.nodup_range
  exact fun hdone => (List.nodup_append.mp hnodup).2.2 i hi i hdone rfl

theorem mem_held {w i : Nat} (hw : p.workers[w]? = some (.holding i)) : i ∈ p.held :=
  List.mem_filterMap.mpr ⟨_, List.mem_of_getElem? hw, rfl⟩

theorem Sound.step (h : Sound work slots p) (hstep : Step work p q) : Sound work slots q := by
  cases hstep with
  | @take w hw hnext =>
    have hlt : p.next < slots.length := h.length ▸ hnext
    refine ⟨?_, h.length, h.slot, fun hmem => ?_⟩
    · have hheld := filterMap_set (f := Worker.held?) hw rfl (.holding p.next)
      have hrange : min (p.next + 1) slots.length = min p.next slots.length + 1 := by omega
      have hmin : min p.next slots.length = p.next := by omega
      rw [hrange, List.range_succ, hmin]
      refine (hheld.append_right p.processed).trans ?_
      have htaken := hmin ▸ h.taken
      exact (htaken.cons p.next).trans (List.perm_append_singleton _ _).symm
    · rcases List.mem_or_eq_of_mem_set hmem with hmem | heq
      · exact Nat.le_succ_of_le (h.stopped hmem)
      · exact nomatch heq
  | @stop w hw hnext =>
    have hle : slots.length ≤ p.next := h.length ▸ hnext
    refine ⟨?_, h.length, h.slot, fun _ => Nat.le_succ_of_le hle⟩
    have hheld := filterMap_set (f := Worker.held?) hw rfl .stopped
    have hrange : min (p.next + 1) slots.length = min p.next slots.length := by omega
    rw [hrange]
    exact (hheld.append_right p.processed).trans h.taken
  | @process w i hw =>
    refine ⟨?_, by rw [List.length_modify, h.length], fun j => ?_, fun hmem => ?_⟩
    · have hheld : ((Worker.held? (.holding i)).toList ++
          (p.workers.set w .free).filterMap Worker.held?).Perm
          (p.workers.filterMap Worker.held?) := filterMap_set_none hw rfl
      refine List.Perm.trans ?_ ((hheld.append_right p.processed).trans h.taken)
      show (_ ++ (p.processed ++ [i])).Perm ([i] ++ _ ++ p.processed)
      rw [← List.append_assoc, List.append_assoc [i]]
      exact List.perm_append_comm
    · have hnew : i ∉ p.processed := h.notMem_processed (mem_held hw)
      rw [List.getElem?_modify, h.slot]
      by_cases hj : i = j
      · subst hj
        simp [hnew]
      · simp [hj, Ne.symm hj]
    · rcases List.mem_or_eq_of_mem_set hmem with hmem | heq
      · exact h.stopped hmem
      · exact nomatch heq

theorem Sound.run (h : Sound work slots p) (hrun : Runs work p q) : Sound work slots q := by
  induction hrun with
  | refl => exact h
  | tail _ hstep ih => exact ih.step hstep

theorem Step.length_workers (h : Step work p q) : q.workers.length = p.workers.length := by
  cases h <;> simp

theorem length_workers_of_run (h : Runs work p q) : q.workers.length = p.workers.length := by
  induction h with
  | refl => rfl
  | tail _ hstep ih => rw [hstep.length_workers, ih]

/-- Once some worker has come to an end and none holds a number, every file has been processed. -/
theorem Sound.processed_of_stopped (h : Sound work slots p) (hpos : 0 < p.workers.length)
    (hstop : p.Stopped) : p.processed.Perm (.range slots.length) := by
  obtain ⟨w, hw⟩ := List.exists_mem_of_length_pos hpos
  have hpast : slots.length ≤ p.next := h.stopped (hstop w hw ▸ hw)
  have hheld : p.held = [] := by
    refine List.filterMap_eq_nil_iff.mpr fun w hw => ?_
    rw [hstop w hw]
    rfl
  have htaken := h.taken
  rwa [hheld, List.nil_append, Nat.min_eq_right hpast] at htaken

theorem Sound.slots_of_stopped (h : Sound work slots p) (hpos : 0 < p.workers.length)
    (hstop : p.Stopped) : p.slots = slots.map work := by
  have hdone := h.processed_of_stopped hpos hstop
  refine List.ext_getElem? fun i => ?_
  rw [h.slot, List.getElem?_map]
  by_cases hi : i < slots.length
  · rw [if_pos (hdone.mem_iff.mpr (List.mem_range.mpr hi))]
  · rw [List.getElem?_eq_none (Nat.le_of_not_lt hi)]
    rfl

/-- Workers that have all stopped have processed each slot once. -/
theorem done_of_run {n : Nat} (hn : 0 < n) (hrun : Runs work (start n slots) p)
    (hstop : p.Stopped) :
    p.processed.Perm (.range slots.length) ∧ p.slots = slots.map work := by
  have hsound := (sound_start n).run hrun
  have hpos : 0 < p.workers.length := by
    rw [length_workers_of_run hrun]
    simpa [start] using hn
  exact ⟨hsound.processed_of_stopped hpos hstop, hsound.slots_of_stopped hpos hstop⟩

/-! ## Every run comes to an end -/

/-- What a worker still counts for: the end it has to come to and the file it has to process. -/
def Worker.left : Worker → Nat
  | .free => 1
  | .holding _ => 2
  | .stopped => 0

/-- An upper bound for the number of steps to come. -/
def left (p : Pool α) : Nat := 2 * (p.slots.length - p.next) + (p.workers.map Worker.left).sum

theorem sum_left_set {ws : List Worker} {w : Nat} {a : Worker} (hw : ws[w]? = some a)
    (a' : Worker) : ((ws.set w a').map Worker.left).sum + Worker.left a =
      (ws.map Worker.left).sum + Worker.left a' := by
  induction ws generalizing w with
  | nil => exact nomatch hw
  | cons x ws ih =>
    cases w with
    | zero =>
      obtain rfl := Option.some.inj hw
      simp only [List.set_cons_zero, List.map_cons, List.sum_cons]
      omega
    | succ w =>
      have htail := ih (w := w) hw
      simp only [List.set_cons_succ, List.map_cons, List.sum_cons]
      omega

/-- Each step brings the pool nearer to its end. -/
theorem Step.left_lt (h : Step work p q) : q.left < p.left := by
  cases h with
  | @take w hw hnext =>
    have hsum := sum_left_set hw (.holding p.next)
    simp only [left, Worker.left] at hsum ⊢
    omega
  | @stop w hw hnext =>
    have hsum := sum_left_set hw .stopped
    simp only [left, Worker.left] at hsum ⊢
    omega
  | @process w i hw =>
    have hsum := sum_left_set hw .free
    simp only [left, Worker.left, List.length_modify] at hsum ⊢
    omega

/-- A worker that has not stopped can take a step, whatever the others do. -/
theorem exists_step (h : ¬ p.Stopped) : ∃ q, Step work p q := by
  simp only [Stopped, not_forall] at h
  obtain ⟨a, ha, hne⟩ := h
  obtain ⟨w, hw⟩ := List.getElem?_of_mem ha
  cases a with
  | free =>
    by_cases hnext : p.next < p.slots.length
    · exact ⟨_, .take hw hnext⟩
    · exact ⟨_, .stop hw (Nat.le_of_not_lt hnext)⟩
  | holding i => exact ⟨_, .process hw⟩
  | stopped => exact absurd rfl hne

/-- Every run can be continued until all workers have stopped. -/
theorem exists_stopped (work : α → α) (p : Pool α) : ∃ q, Runs work p q ∧ q.Stopped := by
  induction hn : p.left using Nat.strongRecOn generalizing p with
  | ind n ih =>
    by_cases hstop : p.Stopped
    · exact ⟨p, .refl, hstop⟩
    · obtain ⟨q, hstep⟩ : ∃ q, Step work p q := exists_step hstop
      obtain ⟨r, hrun, hr⟩ := ih q.left (hn ▸ hstep.left_lt) q rfl
      exact ⟨r, .head hstep hrun, hr⟩

end Pool

/-! ## Files -/

/-- What a worker does with the slot of a file. -/
def FileResult.analysed (d : Disk) (root : Text) (s : Settings) (r : FileResult) : FileResult :=
  .ofPath d root s r.path

/-- The slots of files before their analysis. -/
def openSlots (files : List Text) : List FileResult := files.map fun path => { path }

theorem analysed_openSlots (d : Disk) (root : Text) (s : Settings) (files : List Text) :
    (openSlots files).map (FileResult.analysed d root s) = files.map (FileResult.ofPath d root s) := by
  rw [openSlots, List.map_map]
  rfl

/-- Any number of workers, among them the number for any number of jobs (`poolSize_pos`), in any
order of their steps, process each file once and leave the results of the files in their order. A
single job comes to an end with the same results, and so the run reports what the analysis of one
file after the other reports. -/
theorem results_of_run (d : Disk) (processors : Nat) (o : Options) (s : Settings) (scan : Disk.Scan)
    (c : Console) {n : Nat} (hn : 0 < n) {p : Pool FileResult}
    (hrun : Pool.Runs (.analysed d scan.root s) (.start n (openSlots scan.files)) p)
    (hstop : p.Stopped) :
    p.processed.Perm (.range scan.files.length) ∧
      p.slots = scan.files.map (FileResult.ofPath d scan.root s) ∧
      (∃ q, Pool.Runs (.analysed d scan.root s)
          (.start (poolSize 1 scan.files.length) (openSlots scan.files)) q ∧ q.Stopped ∧
        q.slots = p.slots) ∧
      reportScan processors o s scan p.slots c = analyseScan d processors o s scan c := by
  obtain ⟨hdone, hslots⟩ := Pool.done_of_run hn hrun hstop
  rw [analysed_openSlots] at hslots
  refine ⟨by simpa [openSlots] using hdone, hslots, ?_, by rw [hslots, analyseScan]⟩
  obtain ⟨q, hq, hqstop⟩ := Pool.exists_stopped (FileResult.analysed d scan.root s)
    (.start (poolSize 1 scan.files.length) (openSlots scan.files))
  refine ⟨q, hq, hqstop, ?_⟩
  rw [(Pool.done_of_run (poolSize_pos _ _) hq hqstop).2, analysed_openSlots, hslots]

/-- Two workers for eight jobs and two files; the second file is processed before the first. -/
theorem results_of_run_crossed :
    let scan : Disk.Scan := { root := utf8 "/", files := [utf8 "/a.py", utf8 "/b.py"] }
    ∃ p : Pool FileResult,
      Pool.Runs (.analysed {} scan.root {}) (.start (poolSize 8 2) (openSlots scan.files)) p ∧
        p.Stopped ∧ p.processed = [1, 0] ∧
        p.slots = scan.files.map (FileResult.ofPath {} scan.root {}) ∧
        reportScan 1 {} {} scan p.slots {} = analyseScan {} 1 {} {} scan {} := by
  intro scan
  obtain ⟨p, hrun, hstop, hdone⟩ : ∃ p : Pool FileResult,
      Pool.Runs (.analysed {} scan.root {}) (.start (poolSize 8 2) (openSlots scan.files)) p ∧
        p.Stopped ∧ p.processed = [1, 0] := by
    refine ⟨_, .head (.take (w := 0) rfl (by decide)) <| .head (.take (w := 1) rfl (by decide)) <|
      .head (.process (w := 1) rfl) <| .head (.process (w := 0) rfl) <|
      .head (.stop (w := 1) rfl (by decide)) <| .head (.stop (w := 0) rfl (by decide)) .refl, ?_, rfl⟩
    show ∀ w ∈ [Worker.stopped, .stopped], w = .stopped
    simp
  obtain ⟨-, hslots, -, hreport⟩ := results_of_run {} 1 {} {} scan {} (poolSize_pos 8 2) hrun hstop
  exact ⟨p, hrun, hstop, hdone, hslots, hreport⟩

end CloneScout.Run
