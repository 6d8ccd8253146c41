import Mathlib.Data.List.Nodup
import TextTemplate.Proofs.Catalog.Entries

/-! # Loads and their jobs

  The load of an entry is carried on by one job after the other.  Until its fetch
  has ended, exactly one job, or place among the postponed fetches, is the
  load's errand (`Loads`).  With a time limit the load sleeps meanwhile, and
  `Stirs` says what will wake it up.  `Attended` says that every entry whose text
  has not been read has a load at all.

  What the running job has taken from the queue counts as long as it has it in
  hand.
-/

namespace TextTemplate.Catalog

/-! ### Changing one load -/

/-- The loads with the one of an entry changed. -/
def changeLoad (loads : List Load) (e : EntryId) (f : Load → Load) : List Load :=
  loads.map fun load => if load.entry == e then f load else load

theorem mem_changeLoad {loads : List Load} {e : EntryId} {f : Load → Load} {load' : Load}
    (h : load' ∈ changeLoad loads e f) :
    ∃ load ∈ loads, load.entry = e ∧ load' = f load ∨ load.entry ≠ e ∧ load' = load := by
  obtain ⟨load, hload, rfl⟩ := List.mem_map.1 h
  refine ⟨load, hload, ?_⟩
  split
  · next heq => exact .inl ⟨by simpa using heq, rfl⟩
  · next hne => exact .inr ⟨by simpa using hne, rfl⟩

theorem map_entry_changeLoad (loads : List Load) (e : EntryId) {f : Load → Load}
    (hf : ∀ load, (f load).entry = load.entry) :
    (changeLoad loads e f).map (·.entry) = loads.map (·.entry) := by
  unfold changeLoad
  rw [List.map_map]
  apply List.map_congr_left
  intro load _
  simp only [Function.comp_apply]
  split
  · exact hf load
  · rfl

/-- A change that is not seen in a property of the load. -/
theorem countP_changeLoad {loads : List Load} {e : EntryId} {f : Load → Load} {p : Load → Bool}
    (hf : ∀ load ∈ loads, load.entry = e → p (f load) = p load) :
    (changeLoad loads e f).countP p = loads.countP p := by
  unfold changeLoad
  rw [List.countP_map]
  apply List.countP_congr
  intro load hload
  simp only [Function.comp_apply]
  split
  · next heq => rw [hf load hload (beq_iff_eq.1 heq)]
  · rfl

/-- Whoever has a load has one after the change. -/
theorem exists_changeLoad {loads : List Load} {x : EntryId} (h : ∃ load ∈ loads, load.entry = x)
    (e : EntryId) {f : Load → Load} (hf : ∀ load, (f load).entry = load.entry) :
    ∃ load ∈ changeLoad loads e f, load.entry = x := by
  obtain ⟨load, hload, rfl⟩ := h
  have hmem : load.entry ∈ (changeLoad loads e f).map (·.entry) := by
    rw [map_entry_changeLoad loads e hf]
    exact List.mem_map_of_mem hload
  obtain ⟨load', hload', heq⟩ := List.mem_map.1 hmem
  exact ⟨load', hload', heq⟩

/-! ### Errands -/

/-- The entry for whose load the job fetches, or begins to. -/
def Job.errand? : Job → Option EntryId
  | .load e | .skip e | .fetch e | .read e | .drop e => some e
  | _ => none

/-- The entries whose loads have a fetch to come or under way. -/
def errands (inHand : List EntryId) (jobs : List Job) (postponed : List EntryId) : List EntryId :=
  inHand ++ (jobs.filterMap Job.errand? ++ postponed)

/-- Loads belong to entries that have not been read, and have one errand until it is done. -/
structure Loads (limit? : Option TimeLimit) (inHand : List EntryId) (entries : List Entry)
    (loads : List Load) (jobs : List Job) (postponed : List EntryId) : Prop where
  unread : ∀ load ∈ loads, ∃ entry, entries[load.entry]? = some entry ∧
    entry.isLoading = true ∧ entry.document? = none
  nodup : (loads.map (·.entry)).Nodup
  errand_lt : ∀ e ∈ errands inHand jobs postponed, e < entries.length
  errand_once : ∀ e : EntryId, (errands inHand jobs postponed).count e
    + loads.countP (fun load => load.entry == e && load.fetched?.isSome) ≤ 1
  has_errand : ∀ load ∈ loads, load.fetched? = none → load.entry ∈ errands inHand jobs postponed
  /-- Without a time limit a load ends with its fetch. -/
  unlimited : limit? = none →
    (∀ e ∈ errands inHand jobs postponed, ∃ load ∈ loads, load.entry = e) ∧
    ∀ load ∈ loads, load.fetched? = none

namespace Loads

variable {limit? : Option TimeLimit} {inHand inHand' : List EntryId}
  {entries entries' : List Entry} {loads : List Load} {jobs jobs' : List Job}
  {postponed postponed' : List EntryId}

theorem nil : Loads limit? [] [] [] [] [] := by
  constructor <;> simp [errands]

/-- Errands change hands. -/
theorem congr (h : Loads limit? inHand entries loads jobs postponed)
    (hcount : ∀ e, (errands inHand' jobs' postponed').count e
      = (errands inHand jobs postponed).count e) :
    Loads limit? inHand' entries loads jobs' postponed' := by
  have hmem : ∀ e, e ∈ errands inHand' jobs' postponed' ↔ e ∈ errands inHand jobs postponed := by
    intro e
    rw [← List.count_pos_iff, ← List.count_pos_iff, hcount]
  refine ⟨h.unread, h.nodup, fun e he => h.errand_lt e ((hmem e).1 he), fun e => ?_,
    fun load hload hf => (hmem _).2 (h.has_errand load hload hf),
    fun hlimit => ⟨fun e he => (h.unlimited hlimit).1 e ((hmem e).1 he), (h.unlimited hlimit).2⟩⟩
  rw [hcount]
  exact h.errand_once e

/-- Entries change, but not those that are still to be read. -/
theorem change_entries (h : Loads limit? inHand entries loads jobs postponed)
    (hlen : entries.length ≤ entries'.length)
    (hunread : ∀ load ∈ loads, ∀ entry, entries[load.entry]? = some entry →
      entry.isLoading = true → entry.document? = none →
      ∃ entry', entries'[load.entry]? = some entry' ∧ entry'.isLoading = true ∧
        entry'.document? = none) :
    Loads limit? inHand entries' loads jobs postponed := by
  refine ⟨fun load hload => ?_, h.nodup, fun e he => Nat.lt_of_lt_of_le (h.errand_lt e he) hlen,
    h.errand_once, h.has_errand, h.unlimited⟩
  obtain ⟨entry, he, hloading, hdoc⟩ := h.unread load hload
  exact hunread load hload entry he hloading hdoc

/-- An entry is changed that is not to be read, or that is still to be read afterwards. -/
theorem modify (h : Loads limit? inHand entries loads jobs postponed) {e : EntryId}
    {f : Entry → Entry}
    (hf : ∀ a, entries[e]? = some a → (∃ load ∈ loads, load.entry = e) → a.isLoading = true →
      a.document? = none → (f a).isLoading = true ∧ (f a).document? = none) :
    Loads limit? inHand (entries.modify e f) loads jobs postponed := by
  refine h.change_entries (by simp) fun load hload entry he hloading hdoc => ?_
  by_cases heq : e = load.entry
  · refine ⟨f entry, by rw [← heq] at he ⊢; simp [he], ?_⟩
    exact hf entry (heq ▸ he) ⟨load, hload, heq.symm⟩ hloading hdoc
  · exact ⟨entry, by simpa [List.getElem?_modify_ne _ _ heq] using he, hloading, hdoc⟩

/-- A new entry, its load, and the job that begins it. -/
theorem concat_fresh (h : Loads limit? inHand entries loads jobs postponed) (name : String) :
    Loads limit? inHand (entries ++ [.fresh name]) (loads ++ [.fresh entries.length])
      (jobs ++ [.load entries.length]) postponed := by
  have hcount : ∀ e : EntryId, (errands inHand (jobs ++ [.load entries.length]) postponed).count e
      = (errands inHand jobs postponed).count e + [entries.length].count e := by
    intro e
    have hnew : [Job.load entries.length].filterMap Job.errand? = [entries.length] := rfl
    simp only [errands, List.count_append, List.filterMap_append, hnew]
    omega
  have hmem : ∀ e : EntryId, e ∈ errands inHand (jobs ++ [.load entries.length]) postponed ↔
      e ∈ errands inHand jobs postponed ∨ e = entries.length := by
    intro e
    rw [← List.count_pos_iff, hcount, ← List.count_pos_iff]
    by_cases heq : e = entries.length
    · simp [heq]
    · simp [heq, Ne.symm heq]
  -- No load can belong to an entry that was not there.
  have hnew : ∀ load ∈ loads, load.entry ≠ entries.length := by
    intro load hload heq
    obtain ⟨entry, he, -⟩ := h.unread load hload
    rw [heq] at he
    simp at he
  constructor
  · intro load hload
    rcases mem_or_eq_of_mem_concat hload with hload | rfl
    · obtain ⟨entry, he, hentry⟩ := h.unread load hload
      exact ⟨entry, getElem?_append_of_some he _, hentry⟩
    · exact ⟨.fresh name, by simp [Load.fresh], rfl, rfl⟩
  · rw [List.map_append, List.nodup_append]
    refine ⟨h.nodup, by simp, ?_⟩
    intro e he f hf
    obtain ⟨load, hload, rfl⟩ := List.mem_map.1 he
    obtain rfl : f = entries.length := by simpa [Load.fresh] using hf
    exact hnew load hload
  · intro e he
    simp only [List.length_append, List.length_singleton]
    rcases (hmem e).1 he with he | rfl
    · exact Nat.lt_succ_of_lt (h.errand_lt e he)
    · exact Nat.lt_succ_self _
  · intro e
    have hload : List.countP (fun load => load.entry == e && load.fetched?.isSome)
        [Load.fresh entries.length] = 0 := by simp [Load.fresh]
    rw [hcount, List.countP_append, hload]
    by_cases heq : e = entries.length
    · subst heq
      have hzero : (errands inHand jobs postponed).count entries.length = 0 :=
        List.count_eq_zero.2 fun he => Nat.lt_irrefl _ (h.errand_lt _ he)
      have hnone : loads.countP
          (fun load => load.entry == entries.length && load.fetched?.isSome) = 0 := by
        apply List.countP_eq_zero.2
        intro load hload
        simp [hnew load hload]
      simp [hzero, hnone]
    · have := h.errand_once e
      simpa [List.count_cons, Ne.symm heq] using this
  · intro load hload hf
    rw [hmem]
    rcases mem_or_eq_of_mem_concat hload with hload | rfl
    · exact .inl (h.has_errand load hload hf)
    · exact .inr rfl
  · intro hlimit
    obtain ⟨hex, hnone⟩ := h.unlimited hlimit
    refine ⟨fun e he => ?_, fun load hload => ?_⟩
    · rcases (hmem e).1 he with he | rfl
      · obtain ⟨load, hload, rfl⟩ := hex e he
        exact ⟨load, List.mem_append_left _ hload, rfl⟩
      · exact ⟨.fresh entries.length, by simp, rfl⟩
    · rcases mem_or_eq_of_mem_concat hload with hload | rfl
      · exact hnone load hload
      · rfl

/-- A load ends, and with it its errand, unless that has yet to be dropped. -/
theorem endLoad (h : Loads limit? inHand entries loads jobs postponed) {e : EntryId}
    (hle : ∀ x, (errands inHand' jobs postponed).count x ≤ (errands inHand jobs postponed).count x)
    (hother : ∀ x, x ≠ e →
      (errands inHand' jobs postponed).count x = (errands inHand jobs postponed).count x)
    (hself : limit? = none → e ∉ errands inHand' jobs postponed) :
    Loads limit? inHand' entries (loads.filter (·.entry != e)) jobs postponed := by
  have hmem : ∀ x ∈ errands inHand' jobs postponed, x ∈ errands inHand jobs postponed := by
    intro x hx
    rw [← List.count_pos_iff] at hx ⊢
    exact Nat.lt_of_lt_of_le hx (hle x)
  have hstays : ∀ load ∈ loads.filter (·.entry != e), load ∈ loads ∧ load.entry ≠ e := by
    intro load hload
    simpa using List.mem_filter.1 hload
  refine ⟨fun load hload => h.unread load (hstays load hload).1, ?_,
    fun x hx => h.errand_lt x (hmem x hx), fun x => ?_, fun load hload hf => ?_,
    fun hlimit => ⟨fun x hx => ?_, fun load hload => ?_⟩⟩
  · exact h.nodup.sublist (List.filter_sublist.map _)
  · have := h.errand_once x
    have := hle x
    have := (List.filter_sublist (p := fun load : Load => load.entry != e) (l := loads)).countP_le
      (p := fun load => load.entry == x && load.fetched?.isSome)
    omega
  · obtain ⟨hload, hne⟩ := hstays load hload
    have := h.has_errand load hload hf
    rw [← List.count_pos_iff] at this ⊢
    rwa [hother _ hne]
  · obtain ⟨load, hload, rfl⟩ := (h.unlimited hlimit).1 x (hmem x hx)
    have hne : load.entry ≠ e := fun heq => hself hlimit (heq ▸ hx)
    exact ⟨load, List.mem_filter.2 ⟨hload, by simpa using hne⟩, rfl⟩
  · exact (h.unlimited hlimit).2 load (hstays load hload).1

/-- A load falls asleep, wakes up or is given up, and its errand goes on. -/
theorem change (h : Loads limit? inHand entries loads jobs postponed) (e : EntryId)
    {f : Load → Load} (hentry : ∀ load, (f load).entry = load.entry)
    (hfetched : ∀ load, (f load).fetched? = load.fetched?) :
    Loads limit? inHand entries (changeLoad loads e f) jobs postponed := by
  -- Each load of the new list stands for one of the old list.
  have hback : ∀ load' ∈ changeLoad loads e f,
      ∃ load ∈ loads, load'.entry = load.entry ∧ load'.fetched? = load.fetched? := by
    intro load' hload'
    obtain ⟨load, hload, ⟨-, rfl⟩ | ⟨-, rfl⟩⟩ := mem_changeLoad hload'
    · exact ⟨load, hload, hentry load, hfetched load⟩
    · exact ⟨_, hload, rfl, rfl⟩
  constructor
  · intro load' hload'
    obtain ⟨load, hload, heq, -⟩ := hback load' hload'
    rw [heq]
    exact h.unread load hload
  · rw [map_entry_changeLoad loads e hentry]
    exact h.nodup
  · exact h.errand_lt
  · intro x
    rw [countP_changeLoad fun load _ _ => by rw [hentry, hfetched]]
    exact h.errand_once x
  · intro load' hload' hf
    obtain ⟨load, hload, heq, hfeq⟩ := hback load' hload'
    rw [heq]
    exact h.has_errand load hload (hfeq ▸ hf)
  · intro hlimit
    refine ⟨fun x hx => exists_changeLoad ((h.unlimited hlimit).1 x hx) e hentry,
      fun load' hload' => ?_⟩
    obtain ⟨load, hload, -, hfeq⟩ := hback load' hload'
    rw [hfeq]
    exact (h.unlimited hlimit).2 load hload

theorem count_errands_cons (e : EntryId) (inHand : List EntryId) (jobs : List Job)
    (postponed : List EntryId) (x : EntryId) :
    (errands (e :: inHand) jobs postponed).count x
      = (errands inHand jobs postponed).count x + [e].count x := by
  simp only [errands, List.cons_append, List.count_cons, List.count_nil]
  omega

/-- A load has no second errand beside the one in hand. -/
theorem not_mem_of_inHand {e : EntryId}
    (h : Loads limit? (e :: inHand) entries loads jobs postponed) :
    e ∉ errands inHand jobs postponed := by
  have := h.errand_once e
  rw [count_errands_cons, List.count_singleton_self] at this
  rw [← List.count_pos_iff]
  omega

/-- A load with an errand has not been given anything yet. -/
theorem fetched?_of_errand {e : EntryId} (h : Loads limit? inHand entries loads jobs postponed)
    (he : e ∈ errands inHand jobs postponed) {load : Load} (hload : load ∈ loads)
    (heq : load.entry = e) : load.fetched? = none := by
  have honce := h.errand_once e
  have hpos := List.count_pos_iff.2 he
  have hzero : loads.countP (fun load => load.entry == e && load.fetched?.isSome) = 0 := by omega
  have := List.countP_eq_zero.1 hzero load hload
  simpa [heq] using this

theorem fetched?_of_inHand {e : EntryId}
    (h : Loads limit? (e :: inHand) entries loads jobs postponed) {load : Load}
    (hload : load ∈ loads) (heq : load.entry = e) : load.fetched? = none :=
  h.fetched?_of_errand (List.mem_append_left _ List.mem_cons_self) hload heq

/-- No two jobs run errands for one load. -/
theorem errand_unique {e : EntryId} (h : Loads limit? inHand entries loads jobs postponed)
    {job job' : Job} (hjob : job ∈ jobs) (hjob' : job' ∈ jobs) (he : job.errand? = some e)
    (he' : job'.errand? = some e) : job = job' := by
  obtain ⟨front, back, rfl⟩ := List.append_of_mem hjob
  have honce := h.errand_once e
  -- An errand of another job would come before or behind this one.
  have hother : ∀ {part : List Job}, job' ∈ part → 0 < (part.filterMap Job.errand?).count e :=
    fun hmem => List.count_pos_iff.2 (List.mem_filterMap.2 ⟨job', hmem, he'⟩)
  simp only [errands, List.filterMap_append, List.filterMap_cons_some he, List.count_append,
    List.count_cons_self] at honce
  rcases List.mem_append.1 hjob' with hfront | hback
  · have := hother hfront
    omega
  · rcases List.mem_cons.1 hback with heq | hback
    · exact heq.symm
    · have := hother hback
      omega

/-- A load has no errand in the queue while its fetch is postponed. -/
theorem not_mem_postponed {e : EntryId} (h : Loads limit? inHand entries loads jobs postponed)
    {job : Job} (hjob : job ∈ jobs) (he : job.errand? = some e) : e ∉ postponed := by
  intro hmem
  have honce := h.errand_once e
  have hpos : 0 < (jobs.filterMap Job.errand?).count e :=
    List.count_pos_iff.2 (List.mem_filterMap.2 ⟨job, hjob, he⟩)
  have hpos' := List.count_pos_iff.2 hmem
  simp only [errands, List.count_append] at honce
  omega

/-- A limited fetch ends: its errand is done. -/
theorem fetched {limit : TimeLimit} {e : EntryId}
    (h : Loads (some limit) (e :: inHand) entries loads jobs postponed) (answer : Fetched) :
    Loads (some limit) inHand entries
      (changeLoad loads e fun load => { load with fetched? := some answer }) jobs postponed := by
  have hentries : (changeLoad loads e fun load => { load with fetched? := some answer }).map
      (·.entry) = loads.map (·.entry) := map_entry_changeLoad loads e fun _ => rfl
  constructor
  · intro load' hload'
    obtain ⟨load, hload, ⟨-, rfl⟩ | ⟨-, rfl⟩⟩ := mem_changeLoad hload'
    · exact h.unread load hload
    · exact h.unread _ hload
  · rw [hentries]
    exact h.nodup
  · intro x hx
    exact h.errand_lt x (List.mem_cons_of_mem _ hx)
  · intro x
    by_cases hxe : x = e
    · -- The errand in hand is done, and no entry has a second load.
      subst hxe
      rw [List.count_eq_zero_of_not_mem h.not_mem_of_inHand, Nat.zero_add]
      refine Nat.le_trans ?_ (List.nodup_iff_count_le_one.1 h.nodup x)
      rw [← hentries, List.count_eq_countP, List.countP_map]
      apply List.countP_mono_left
      intro load _ hload
      simp only [Bool.and_eq_true] at hload
      exact hload.1
    · have hsum := h.errand_once x
      rw [count_errands_cons, List.count_cons_of_ne (Ne.symm hxe), List.count_nil,
        Nat.add_zero] at hsum
      -- The load that gets the answer is not the one that is counted here.
      have hsame : ∀ load ∈ loads, load.entry = e →
          (load.entry == x && (some answer).isSome)
            = (load.entry == x && load.fetched?.isSome) := by
        intro load _ heq
        have hne : (load.entry == x) = false := by
          rw [heq]
          simpa using Ne.symm hxe
        simp [hne]
      rw [countP_changeLoad hsame]
      exact hsum
  · intro load' hload' hf
    obtain ⟨load, hload, ⟨-, rfl⟩ | ⟨hne, rfl⟩⟩ := mem_changeLoad hload'
    · cases hf
    · exact (List.mem_cons.1 (h.has_errand _ hload hf)).resolve_left hne
  · intro hlimit
    cases hlimit

end Loads

/-! ### What wakes a load up -/

/-- The entry whose load the job carries on when it runs. -/
def Job.stirs? : Job → Option EntryId
  | .load e | .skip e | .resume e | .interrupt e => some e
  | _ => none

/-- The entry whose load learns from the job that its fetch is over. -/
def Job.reports? : Job → Option EntryId
  | .report e => some e
  | _ => none

/-- A load that is not asleep has a job, and one whose fetch is over will be told. -/
structure Stirs (limit? : Option TimeLimit) (stirring reporting : List EntryId)
    (loads : List Load) (jobs : List Job) : Prop where
  awake : ∀ load ∈ loads, limit? ≠ none → load.asleep = false →
    load.entry ∈ stirring ++ jobs.filterMap Job.stirs?
  reported : ∀ load ∈ loads, load.asleep = true → load.fetched? ≠ none →
    load.entry ∈ reporting ++ jobs.filterMap Job.reports?
  /-- Without a time limit no load falls asleep. -/
  unlimited : limit? = none → (∀ load ∈ loads, load.asleep = false) ∧
    ∀ e, .resume e ∉ jobs ∧ .interrupt e ∉ jobs

namespace Stirs

variable {limit? : Option TimeLimit} {stirring stirring' reporting reporting' : List EntryId}
  {loads loads' : List Load} {jobs jobs' : List Job}

theorem nil : Stirs limit? [] [] [] [] := by
  constructor <;> simp

/-- Jobs come, and what they replace goes. -/
theorem congr (h : Stirs limit? stirring reporting loads jobs)
    (hstirs : ∀ e ∈ stirring ++ jobs.filterMap Job.stirs?,
      e ∈ stirring' ++ jobs'.filterMap Job.stirs?)
    (hreports : ∀ e ∈ reporting ++ jobs.filterMap Job.reports?,
      e ∈ reporting' ++ jobs'.filterMap Job.reports?)
    (htimed : limit? = none → ∀ e, (.resume e ∈ jobs' → .resume e ∈ jobs) ∧
      (.interrupt e ∈ jobs' → .interrupt e ∈ jobs)) :
    Stirs limit? stirring' reporting' loads jobs' where
  awake load hload hlimit hawake := hstirs _ (h.awake load hload hlimit hawake)
  reported load hload hasleep hfetched := hreports _ (h.reported load hload hasleep hfetched)
  unlimited hlimit := by
    obtain ⟨hawake, hjobs⟩ := h.unlimited hlimit
    refine ⟨hawake, fun e => ⟨fun he => ?_, fun he => ?_⟩⟩
    · exact (hjobs e).1 ((htimed hlimit e).1 he)
    · exact (hjobs e).2 ((htimed hlimit e).2 he)

/-- Some loads end, and what is left of the rest is in hand or queued. -/
theorem sublist (h : Stirs limit? stirring reporting loads jobs)
    (hloads : ∀ load ∈ loads', load ∈ loads)
    (hstirs : ∀ load ∈ loads', load.entry ∈ stirring ++ jobs.filterMap Job.stirs? →
      load.entry ∈ stirring' ++ jobs.filterMap Job.stirs?)
    (hreports : ∀ load ∈ loads', load.entry ∈ reporting ++ jobs.filterMap Job.reports? →
      load.entry ∈ reporting' ++ jobs.filterMap Job.reports?) :
    Stirs limit? stirring' reporting' loads' jobs where
  awake load hload hlimit hawake :=
    hstirs load hload (h.awake load (hloads load hload) hlimit hawake)
  reported load hload hasleep hfetched :=
    hreports load hload (h.reported load (hloads load hload) hasleep hfetched)
  unlimited hlimit :=
    ⟨fun load hload => (h.unlimited hlimit).1 load (hloads load hload), (h.unlimited hlimit).2⟩

theorem concat_fresh (h : Stirs limit? stirring reporting loads jobs) (e : EntryId) :
    Stirs limit? stirring reporting (loads ++ [.fresh e]) (jobs ++ [.load e]) := by
  constructor
  · intro load hload hlimit hawake
    rw [List.filterMap_append, ← List.append_assoc]
    rcases mem_or_eq_of_mem_concat hload with hload | rfl
    · exact List.mem_append_left _ (h.awake load hload hlimit hawake)
    · exact List.mem_append_right _ (List.mem_singleton.2 rfl)
  · intro load hload hasleep hfetched
    rw [List.filterMap_append, ← List.append_assoc]
    rcases mem_or_eq_of_mem_concat hload with hload | rfl
    · exact List.mem_append_left _ (h.reported load hload hasleep hfetched)
    · cases hasleep
  · intro hlimit
    obtain ⟨hawake, hjobs⟩ := h.unlimited hlimit
    refine ⟨fun load hload => ?_, fun x => ?_⟩
    · rcases mem_or_eq_of_mem_concat hload with hload | rfl
      · exact hawake load hload
      · rfl
    · simpa using hjobs x

/-- A load falls asleep while its fetch is under way. -/
theorem sleep {limit : TimeLimit} {e : EntryId}
    (h : Stirs (some limit) (e :: stirring) reporting loads jobs)
    (hfetch : ∀ load ∈ loads, load.entry = e → load.fetched? = none) {f : Load → Load}
    (hf : ∀ load, (f load).entry = load.entry ∧ (f load).asleep = true ∧
      (f load).fetched? = load.fetched?) :
    Stirs (some limit) stirring reporting (changeLoad loads e f) jobs := by
  constructor
  · intro load' hload' hlimit hawake
    obtain ⟨load, hload, ⟨-, rfl⟩ | ⟨hne, rfl⟩⟩ := mem_changeLoad hload'
    · rw [(hf load).2.1] at hawake
      cases hawake
    · exact (List.mem_cons.1 (h.awake _ hload hlimit hawake)).resolve_left hne
  · intro load' hload' hasleep hfetched
    obtain ⟨load, hload, ⟨heq, rfl⟩ | ⟨hne, rfl⟩⟩ := mem_changeLoad hload'
    · rw [(hf load).2.2] at hfetched
      exact absurd (hfetch load hload heq) hfetched
    · exact h.reported _ hload hasleep hfetched
  · intro hlimit
    cases hlimit

/-- A limited fetch ends, and the load has to be told. -/
theorem fetched {limit : TimeLimit} (h : Stirs (some limit) stirring reporting loads jobs)
    (e : EntryId) (answer : Fetched) :
    Stirs (some limit) stirring (e :: reporting)
      (changeLoad loads e fun load => { load with fetched? := some answer }) jobs := by
  constructor
  · intro load' hload' hlimit hawake
    obtain ⟨load, hload, ⟨-, rfl⟩ | ⟨-, rfl⟩⟩ := mem_changeLoad hload'
    · exact h.awake load hload hlimit hawake
    · exact h.awake _ hload hlimit hawake
  · intro load' hload' hasleep hfetched
    rw [List.cons_append, List.mem_cons]
    obtain ⟨load, hload, ⟨heq, rfl⟩ | ⟨-, rfl⟩⟩ := mem_changeLoad hload'
    · exact .inl heq
    · exact .inr (h.reported _ hload hasleep hfetched)
  · intro hlimit
    cases hlimit

/-- A load wakes up, and has to go on. -/
theorem wake {limit : TimeLimit} {e : EntryId}
    (h : Stirs (some limit) stirring (e :: reporting) loads jobs) :
    Stirs (some limit) (e :: stirring) reporting
      (changeLoad loads e fun load => { load with asleep := false }) jobs := by
  constructor
  · intro load' hload' hlimit hawake
    rw [List.cons_append, List.mem_cons]
    obtain ⟨load, hload, ⟨heq, rfl⟩ | ⟨-, rfl⟩⟩ := mem_changeLoad hload'
    · exact .inl heq
    · exact .inr (h.awake _ hload hlimit hawake)
  · intro load' hload' hasleep hfetched
    obtain ⟨load, hload, ⟨-, rfl⟩ | ⟨hne, rfl⟩⟩ := mem_changeLoad hload'
    · cases hasleep
    · exact (List.mem_cons.1 (h.reported _ hload hasleep hfetched)).resolve_left hne
  · intro hlimit
    cases hlimit

end Stirs

/-! ### Entries without a load -/

/-- An entry that is still to be read has a load, except for some. -/
def Attended (except : List EntryId) (entries : List Entry) (loads : List Load) : Prop :=
  ∀ (e : EntryId) (entry : Entry), entries[e]? = some entry → entry.isLoading = true →
    entry.document? = none → e ∈ except ∨ ∃ load ∈ loads, load.entry = e

namespace Attended

variable {except except' : List EntryId} {entries : List Entry} {loads : List Load}

theorem nil : Attended [] [] [] := by
  intro e entry he
  simp at he

/-- Entries are read or settle, and none begins to load again. -/
theorem modify (h : Attended except entries loads) {e : EntryId} {f : Entry → Entry}
    (hself : ∀ a, entries[e]? = some a → (f a).isLoading = true → (f a).document? = none →
      a.isLoading = true ∧ a.document? = none ∧ (e ∈ except → e ∈ except'))
    (hother : ∀ x, x ≠ e → x ∈ except → x ∈ except') :
    Attended except' (entries.modify e f) loads := by
  intro x b hb hloading hdoc
  obtain ⟨a, ha, rfl⟩ := getElem?_of_getElem?_modify hb
  by_cases hex : e = x
  · subst hex
    simp only [if_true] at hloading hdoc
    obtain ⟨haload, hadoc, hexcept⟩ := hself a ha hloading hdoc
    exact (h e a ha haload hadoc).imp_left hexcept
  · simp only [if_neg hex] at hloading hdoc
    exact (h x a ha hloading hdoc).imp_left (hother x (Ne.symm hex))

theorem concat_fresh (h : Attended except entries loads) (name : String) :
    Attended except (entries ++ [.fresh name]) (loads ++ [.fresh entries.length]) := by
  intro e entry he hloading hdoc
  rcases getElem?_of_getElem?_concat he with he | ⟨rfl, rfl⟩
  · refine (h e entry he hloading hdoc).imp_right fun ⟨load, hload, heq⟩ => ?_
    exact ⟨load, List.mem_append_left _ hload, heq⟩
  · exact .inr ⟨.fresh entries.length, by simp, rfl⟩

/-- A load changes, and goes on. -/
theorem change (h : Attended except entries loads) (e : EntryId) {f : Load → Load}
    (hentry : ∀ load, (f load).entry = load.entry) :
    Attended except entries (changeLoad loads e f) := by
  intro x entry he hloading hdoc
  exact (h x entry he hloading hdoc).imp_right fun hex => exists_changeLoad hex e hentry

/-- A load ends, and its entry is left for the running job to settle. -/
theorem endLoad (h : Attended except entries loads) (e : EntryId) :
    Attended (e :: except) entries (loads.filter (·.entry != e)) := by
  intro x entry he hloading hdoc
  by_cases hxe : x = e
  · exact .inl (hxe ▸ List.mem_cons_self)
  · refine (h x entry he hloading hdoc).imp (List.mem_cons_of_mem _) fun ⟨load, hload, heq⟩ => ?_
    exact ⟨load, List.mem_filter.2 ⟨hload, by simpa [heq] using hxe⟩, heq⟩

end Attended

end TextTemplate.Catalog
