/-! # Circles of ancestors

  Each template names at most one ancestor, so the known links lead from a
  template along a single path.  `findCycle?` follows it from a new link on and
  gives the circle that the link would close.

  A link is followed once only: it is taken away when it has been used.  So the
  walk ends, also on links that go round in a circle of their own, where it
  comes to a template without a link.
-/

namespace TextTemplate.Catalog

/-- Known links: names of templates with the names of their ancestors. -/
abbrev Links := List (String × String)

/-- The ancestor of a template. -/
def Links.find? (links : Links) (name : String) : Option String := links.lookup name

/-- The links of all other templates. -/
def Links.erase (links : Links) (name : String) : Links := links.filter fun link => link.1 != name

/-- A template with a link has fewer links beside it. -/
theorem Links.length_erase_lt {links : Links} {name next : String}
    (h : links.find? name = some next) : (links.erase name).length < links.length := by
  induction links with
  | nil => simp [Links.find?] at h
  | cons link rest ih =>
    obtain ⟨first, second⟩ := link
    by_cases hname : first = name
    · subst hname
      simp only [Links.erase, List.filter_cons, bne_self_eq_false, Bool.false_eq_true, if_false,
        List.length_cons]
      exact Nat.lt_succ_of_le (List.length_filter_le _ _)
    · have hother : (name == first) = false := by simp [Ne.symm hname]
      have := ih (by simpa [Links.find?, List.lookup_cons, hother] using h)
      simpa [Links.erase, List.filter_cons, hname] using this

/-- The path along the links from one template to another, both included. -/
def pathTo? (target : String) (links : Links) (current : String) : Option (List String) :=
  if current = target then some [current]
  else match _h : links.find? current with
    | none => none
    | some next => (pathTo? target (links.erase current) next).map (current :: ·)
termination_by links.length
decreasing_by exact Links.length_erase_lt _h

/-- The circle from a template back to itself that its link to an ancestor would close. -/
def findCycle? (links : Links) (name ancestor : String) : Option (List String) :=
  (pathTo? name links ancestor).map (name :: ·)

end TextTemplate.Catalog
