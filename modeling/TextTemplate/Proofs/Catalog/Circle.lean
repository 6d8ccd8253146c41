import TextTemplate.Proofs.Catalog.Terms

/-! # Circles of links and circles of waiters

  `pathTo?` finds a way along the links exactly if there is one, although it
  uses no link twice.  Loading entries that wait for each other stand in a row
  of known links, so a link that would close a circle of them is always found
  out, and the waiting entries never form one (`Acyclic`).
-/

namespace TextTemplate.Catalog

open Relation

/-! ### Following links -/

/-- There is a way along the links from one name to another. -/
def Links.Leads (links : Links) : String → String → Prop :=
  ReflTransGen fun a b => links.find? a = some b

theorem Links.find?_erase (links : Links) (name a : String) :
    (links.erase name).find? a = if a = name then none else links.find? a := by
  unfold Links.erase Links.find?
  induction links with
  | nil => simp
  | cons link rest ih =>
    obtain ⟨first, second⟩ := link
    by_cases hfirst : first = name
    · -- The first link is left out; it would have hidden no link of another name.
      subst hfirst
      simp only [List.filter_cons, bne_self_eq_false, Bool.false_eq_true, if_false, ih]
      split
      · rfl
      · next hne =>
        have hother : (a == first) = false := by simpa using hne
        simp [List.lookup_cons, hother]
    · have hkeep : (first != name) = true := by simpa using hfirst
      simp only [List.filter_cons, hkeep, if_true, List.lookup_cons, ih]
      by_cases hfa : a = first
      · subst hfa
        simp [hfirst]
      · have : (a == first) = false := by simpa using hfa
        simp [this]

/-- The links that are left when a name's link is taken away are links of other names. -/
theorem Links.find?_of_erase {links : Links} {name a b : String}
    (h : (links.erase name).find? a = some b) : links.find? a = some b ∧ a ≠ name := by
  rw [Links.find?_erase] at h
  split at h
  · cases h
  · next hne => exact ⟨h, hne⟩

/-- A way along fewer links is a way along all. -/
theorem Links.Leads.of_erase {links : Links} {name a b : String}
    (h : (links.erase name).Leads a b) : links.Leads a b :=
  ReflTransGen.mono (fun _ _ hxy => (Links.find?_of_erase hxy).1) _ _ h

/-- A way that starts with a link needs that link no more. -/
theorem Links.Leads.erase {links : Links} {name next target : String}
    (hnext : links.find? name = some next) (h : links.Leads next target) (hne : name ≠ target) :
    (links.erase name).Leads next target := by
  -- From each place on the way, the rest of it avoids the link, or comes back to the link's end
  -- and avoids the link from there.
  have hway : ∀ x, links.Leads x target →
      (links.erase name).Leads x target ∨ (links.erase name).Leads next target := by
    intro x hx
    induction hx using ReflTransGen.head_induction_on with
    | refl => exact .inl .refl
    | @head x y hxy _ ih =>
      rcases ih with ih | ih
      · by_cases hx : x = name
        · subst hx
          obtain rfl : next = y := Option.some.inj (hnext.symm.trans hxy)
          exact .inr ih
        · have hkept : (links.erase name).find? x = some y := by
            rw [Links.find?_erase, if_neg hx]
            exact hxy
          exact .inl (ReflTransGen.head hkept ih)
      · exact .inr ih
  exact (hway next h).elim id id

/-- The walk arrives exactly where the links lead. -/
theorem isSome_pathTo?_iff (target : String) (links : Links) (current : String) :
    (pathTo? target links current).isSome = true ↔ links.Leads current target := by
  fun_induction pathTo? target links current with
  | case1 links => exact iff_of_true rfl ReflTransGen.refl
  | case2 links current hne hnone =>
    simp only [Option.isSome_none, Bool.false_eq_true, false_iff]
    intro hleads
    rcases ReflTransGen.cases_head hleads with heq | ⟨next, hnext, -⟩
    · exact hne heq
    · rw [hnone] at hnext
      cases hnext
  | case3 links current hne next hnext ih =>
    rw [Option.isSome_map, ih]
    constructor
    · intro hrest
      exact ReflTransGen.head hnext hrest.of_erase
    · intro hleads
      rcases ReflTransGen.cases_head hleads with heq | ⟨next', hnext', hrest⟩
      · exact absurd heq hne
      · obtain rfl : next = next' := by rw [hnext] at hnext'; exact Option.some.inj hnext'
        exact Links.Leads.erase hnext hrest hne

/-- A link closes a circle exactly if the links lead back from its end. -/
theorem findCycle?_eq_none_iff (links : Links) (name ancestor : String) :
    findCycle? links name ancestor = none ↔ ¬ links.Leads ancestor name := by
  rw [← isSome_pathTo?_iff]
  unfold findCycle?
  cases pathTo? name links ancestor <;> simp

/-! ### Links of a catalog -/

/-- The known links are those of the entries that are found under their names. -/
theorem mem_links {c : Catalog} {name parent : String} :
    (name, parent) ∈ c.links ↔ ∃ entry ∈ c.entries, entry.listed = true ∧ entry.name = name ∧
      entry.parent? = some parent := by
  simp only [links, listing, List.mem_filterMap, List.mem_filter, Option.map_eq_some_iff,
    Prod.mk.injEq]
  constructor
  · rintro ⟨entry, ⟨hmem, hlisted⟩, p, hp, rfl, rfl⟩
    exact ⟨entry, hmem, hlisted, rfl, hp⟩
  · rintro ⟨entry, hmem, hlisted, rfl, hp⟩
    exact ⟨entry, ⟨hmem, hlisted⟩, parent, hp, rfl, rfl⟩

theorem mem_of_find? {links : Links} {name parent : String}
    (h : links.find? name = some parent) : (name, parent) ∈ links := by
  obtain ⟨before, after, rfl, -⟩ := List.lookup_eq_some_iff.1 h
  simp

/-- A listed entry's link is the one that is found under its name. -/
theorem find?_links {c : Catalog} (h : Listing c.entries) {e : EntryId} {entry : Entry}
    {parent : String} (he : c.entries[e]? = some entry) (hlisted : entry.listed = true)
    (hparent : entry.parent? = some parent) : c.links.find? entry.name = some parent := by
  cases hfind : c.links.find? entry.name with
  | none =>
    have hmem : (entry.name, parent) ∈ c.links :=
      mem_links.2 ⟨entry, List.mem_of_getElem? he, hlisted, rfl, hparent⟩
    have := List.lookup_eq_none_iff.1 hfind _ hmem
    simp at this
  | some other =>
    obtain ⟨entry', hmem', hlisted', hname, hparent'⟩ := mem_links.1 (mem_of_find? hfind)
    obtain ⟨f, hf⟩ := List.getElem?_of_mem hmem'
    -- No two listed entries have one name, so this is the link of the entry itself.
    obtain rfl := h.eq_of_name_eq f e entry' entry hf he hlisted' hlisted hname
    rw [he] at hf
    obtain rfl := Option.some.inj hf
    rw [← hparent', hparent]

/-! ### Entries that wait for each other -/

/-- An entry stands in the list of waiters of another one. -/
def WaitsFor (entries : List Entry) (e f : EntryId) : Prop :=
  ∃ entry, entries[f]? = some entry ∧ .descendant e ∈ entry.waiters

/-- No entries wait for each other in a circle. -/
def Acyclic (entries : List Entry) : Prop := ∀ e, ¬ TransGen (WaitsFor entries) e e

theorem Acyclic.nil : Acyclic [] := by
  intro e h
  obtain ⟨f, ⟨entry, hf, -⟩, -⟩ := TransGen.head'_iff.1 h
  simp at hf

/-- Where fewer wait there is no circle either. -/
theorem Acyclic.mono {entries entries' : List Entry} (h : Acyclic entries)
    (hwaits : ∀ e f, WaitsFor entries' e f → WaitsFor entries e f) : Acyclic entries' :=
  fun e he => h e (TransGen.mono hwaits _ _ he)

/-- One more edge closes a circle only if there is a way back along the others. -/
theorem acyclic_of_new_edge {α : Type} {r r' : α → α → Prop} {a b : α}
    (h : ∀ x, ¬ TransGen r x x) (hr : ∀ x y, r' x y → r x y ∨ x = a ∧ y = b)
    (hback : ¬ ReflTransGen r b a) : ∀ x, ¬ TransGen r' x x := by
  -- A way that takes the new edge goes to its start before it first does, and from its end after
  -- it last does.
  have hway : ∀ x y, TransGen r' x y →
      TransGen r x y ∨ ReflTransGen r x a ∧ ReflTransGen r b y := by
    intro x y hxy
    induction hxy with
    | single hedge =>
      rcases hr _ _ hedge with hedge | ⟨rfl, rfl⟩
      · exact .inl (.single hedge)
      · exact .inr ⟨.refl, .refl⟩
    | tail _ hedge ih =>
      rcases hr _ _ hedge with hedge | ⟨rfl, rfl⟩
      · rcases ih with ih | ⟨hxa, hby⟩
        · exact .inl (.tail ih hedge)
        · exact .inr ⟨hxa, .tail hby hedge⟩
      · rcases ih with ih | ⟨hxa, -⟩
        · exact .inr ⟨ih.to_reflTransGen, .refl⟩
        · exact .inr ⟨hxa, .refl⟩
  intro x hx
  rcases hway x x hx with hx | ⟨hxa, hbx⟩
  · exact h x hx
  · exact hback (hbx.trans hxa)

section waiting

variable {c : Catalog} {t : Terms} {cancelled : List RequestId} {inHand : List Waiter}
  {loads : List Load} {jobs jobs' : List Job} {answers : List (RequestId × Outcome)}

/-- Who waits for another entry has a known link to it. -/
theorem find?_links_of_waitsFor (hlisting : Listing c.entries)
    (hties : Ties inHand c.entries jobs)
    (hfaithful : Faithful t cancelled c.awaitedName? c.entries loads jobs' answers)
    {e f : EntryId} (h : WaitsFor c.entries e f) :
    ∃ a b, c.entries[e]? = some a ∧ c.entries[f]? = some b ∧
      c.links.find? a.name = some b.name := by
  obtain ⟨b, hb, hmem⟩ := h
  obtain ⟨a, p, ha, hload, hp, -⟩ := entry_of_awaitsAncestor (hties.awaits_of_mem hb hmem)
  have hname := hfaithful.waiter b (List.mem_of_getElem? hb) _ hmem
  simp only [awaitedName?, ha, Option.bind_some] at hname
  exact ⟨a, b, ha, hb, find?_links hlisting ha (hlisting.listed_of_loading e a ha hload) hname⟩

/-- The links lead from an entry to all for which it waits. -/
theorem leads_of_waitsFor (hlisting : Listing c.entries) (hties : Ties inHand c.entries jobs)
    (hfaithful : Faithful t cancelled c.awaitedName? c.entries loads jobs' answers)
    {e f : EntryId} (h : ReflTransGen (WaitsFor c.entries) e f) {a b : Entry}
    (ha : c.entries[e]? = some a) (hb : c.entries[f]? = some b) :
    c.links.Leads a.name b.name := by
  induction h generalizing b with
  | refl =>
    rw [ha] at hb
    obtain rfl := Option.some.inj hb
    exact .refl
  | tail _ hedge ih =>
    obtain ⟨x, y, hx, hy, hfind⟩ := find?_links_of_waitsFor hlisting hties hfaithful hedge
    rw [hb] at hy
    obtain rfl := Option.some.inj hy
    exact .tail (ih hx) hfind

/-- A link that closes no circle of links closes no circle of waiting entries. -/
theorem Acyclic.addWaiter (h : Acyclic c.entries) (hlisting : Listing c.entries)
    (hties : Ties inHand c.entries jobs)
    (hfaithful : Faithful t cancelled c.awaitedName? c.entries loads jobs' answers)
    {e f : EntryId} {a b : Entry} (ha : c.entries[e]? = some a) (hb : c.entries[f]? = some b)
    (hleads : ¬ c.links.Leads b.name a.name) :
    Acyclic (c.entries.modify f fun b => { b with waiters := b.waiters ++ [.descendant e] }) := by
  refine acyclic_of_new_edge (a := e) (b := f) h ?_ ?_
  · intro x y hxy
    obtain ⟨entry, hy, hmem⟩ := hxy
    obtain ⟨old, hold, rfl⟩ := getElem?_of_getElem?_modify hy
    by_cases hfy : f = y
    · subst hfy
      simp only [if_true, List.mem_append, List.mem_singleton, Waiter.descendant.injEq] at hmem
      rcases hmem with hmem | rfl
      · exact .inl ⟨old, hold, hmem⟩
      · exact .inr ⟨rfl, rfl⟩
    · simp only [if_neg hfy] at hmem
      exact .inl ⟨old, hold, hmem⟩
  · intro hback
    exact hleads (leads_of_waitsFor hlisting hties hfaithful hback hb ha)

end waiting

/-- Links that lead from a name back to it are a circle among the documents. -/
theorem extends_of_leads {c : Catalog} {t : Terms} (h : ∀ entry ∈ c.entries, FaithfulEntry t entry)
    {a b : String} (hleads : c.links.Leads a b) : ReflTransGen t.Extends a b := by
  refine ReflTransGen.mono (fun x y hxy => ?_) _ _ hleads
  obtain ⟨entry, hmem, -, rfl, hparent⟩ := mem_links.1 (mem_of_find? hxy)
  obtain ⟨document, hdoc, hp⟩ := Option.bind_eq_some_iff.1 hparent
  exact ⟨document, (h entry hmem).document document hdoc, hp⟩

end TextTemplate.Catalog
