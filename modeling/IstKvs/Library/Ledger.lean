import Mathlib.Algebra.Order.BigOperators.Group.Finset
import Mathlib.Data.Fintype.Basic
import Mathlib.Data.List.Dedup

/-! Resources that owners open and close. The ledger says what each owner in business
holds; an entry that does not fit it is refused. -/

namespace IstKvs.Ledgers

inductive Entry (Owner Resource : Type) where
  | began (owner : Owner)
  | opened (owner : Owner) (resource : Resource)
  | closed (owner : Owner) (resource : Option Resource)
  | ended (owner : Owner)
  deriving DecidableEq

/-- What each owner holds; `none` is an owner that is not in business. -/
abbrev Ledger (Owner Resource : Type) := Owner → Option (List Resource)

variable {Owner Resource : Type} [DecidableEq Owner]

section Accounts
variable [DecidableEq Resource]

/-- An owner closes only what it holds, and ends with nothing left. -/
def Ledger.account (held : Ledger Owner Resource) : Entry Owner Resource → Option (Ledger Owner Resource)
  | .began owner => if held owner = none then some (Function.update held owner (some [])) else none
  | .opened owner resource =>
      (held owner).map fun resources => Function.update held owner (some (resources ++ [resource]))
  | .closed _ none => none
  | .closed owner (some resource) =>
      (held owner).bind fun resources =>
        if resource ∈ resources then some (Function.update held owner (some (resources.erase resource))) else none
  | .ended owner => if held owner = some [] then some (Function.update held owner none) else none

/-- The ledger after all entries, if none is refused. -/
def accounts (entries : List (Entry Owner Resource)) : Option (Ledger Owner Resource) :=
  entries.foldlM Ledger.account fun _ => none

theorem accounts_append {entries later : List (Entry Owner Resource)} {held : Ledger Owner Resource}
    (before : accounts entries = some held) : accounts (entries ++ later) = later.foldlM Ledger.account held := by
  rw [accounts, List.foldlM_append]
  exact congrArg (· >>= fun held => later.foldlM Ledger.account held) before

theorem account_single (held : Ledger Owner Resource) (entry : Entry Owner Resource) :
    [entry].foldlM Ledger.account held = held.account entry := by
  rw [List.foldlM_cons]
  cases held.account entry <;> rfl

end Accounts

/-- The owners in business. -/
def inBusiness [Fintype Owner] (held : Ledger Owner Resource) : Finset Owner :=
  Finset.univ.filter fun owner => (held owner).isSome = true

/-- Exactly the open resources are on the ledger, each once. -/
structure Matches (held : Ledger Owner Resource) (isOpen : Resource → Prop) : Prop where
  listed : ∀ {resource}, isOpen resource → ∃ owner resources, held owner = some resources ∧ resource ∈ resources
  live : ∀ {owner resources resource}, held owner = some resources → resource ∈ resources → isOpen resource
  nodup : ∀ {owner resources}, held owner = some resources → resources.Nodup
  alone : ∀ {first second resources others resource}, held first = some resources → held second = some others →
    resource ∈ resources → resource ∈ others → first = second

section Matches
variable {held : Ledger Owner Resource} {isOpen isOpen' : Resource → Prop} {owner : Owner}
  {resources : List Resource} {resource : Resource}

omit [DecidableEq Owner] in
theorem Matches.congr (fits : Matches held isOpen) (same : ∀ resource, isOpen' resource ↔ isOpen resource) :
    Matches held isOpen' where
  listed := fun opened => fits.listed ((same _).mp opened)
  live := fun owned member => (same _).mpr (fits.live owned member)
  nodup := fits.nodup
  alone := fits.alone

/-- What the ledger has of an owner after a change is what was changed, or is as before. -/
theorem update_cases {value : Option (List Resource)} {other : Owner} {others : List Resource}
    (found : Function.update held owner value other = some others) :
    other = owner ∧ value = some others ∨ other ≠ owner ∧ held other = some others := by
  by_cases same : other = owner
  · subst same
    rw [Function.update_self] at found
    exact .inl ⟨rfl, found⟩
  · rw [Function.update_of_ne same] at found
    exact .inr ⟨same, found⟩

theorem Matches.update {changed : List Resource} (fits : Matches held isOpen)
    (listed : ∀ other, isOpen' other → other ∈ changed ∨ isOpen other ∧ ∀ resources, held owner = some resources → other ∉ resources)
    (live : ∀ other, other ∈ changed → isOpen' other)
    (kept : ∀ {place resources other}, place ≠ owner → held place = some resources → other ∈ resources →
      isOpen' other ∧ other ∉ changed)
    (nodup : changed.Nodup) : Matches (Function.update held owner (some changed)) isOpen' where
  listed := fun {other} opened => by
    rcases listed other opened with new | ⟨before, elsewhere⟩
    · exact ⟨owner, changed, Function.update_self .., new⟩
    · obtain ⟨place, resources, owned, member⟩ := fits.listed before
      have different : place ≠ owner := fun same => elsewhere resources (same ▸ owned) member
      exact ⟨place, resources, by rw [Function.update_of_ne different, owned], member⟩
  live := fun owned member => by
    rcases update_cases owned with ⟨_, same⟩ | ⟨different, owned⟩
    · exact live _ (Option.some.inj same ▸ member)
    · exact (kept different owned member).1
  nodup := fun owned => by
    rcases update_cases owned with ⟨_, same⟩ | ⟨_, owned⟩
    · exact Option.some.inj same ▸ nodup
    · exact fits.nodup owned
  alone := fun owned owned' member member' => by
    rcases update_cases owned with ⟨place, same⟩ | ⟨different, owned⟩ <;>
      rcases update_cases owned' with ⟨place', same'⟩ | ⟨different', owned'⟩
    · exact place.trans place'.symm
    · exact absurd (Option.some.inj same ▸ member) (kept different' owned' member').2
    · exact absurd (Option.some.inj same' ▸ member') (kept different owned member).2
    · exact fits.alone owned owned' member member'

theorem Matches.began (fits : Matches held isOpen) (idle : held owner = none) :
    Matches (Function.update held owner (some [])) isOpen := by
  apply fits.update
  · intro other opened
    exact .inr ⟨opened, fun resources owned => absurd (idle.symm.trans owned) (by simp)⟩
  · simp
  · intro place resources other _ owned member
    exact ⟨fits.live owned member, List.not_mem_nil⟩
  · exact List.nodup_nil

theorem Matches.opened (fits : Matches held isOpen) (busy : held owner = some resources) (fresh : ¬isOpen resource) :
    Matches (Function.update held owner (some (resources ++ [resource]))) fun other => isOpen other ∨ other = resource := by
  apply fits.update
  · rintro other (before | same)
    · by_cases here : other ∈ resources
      · exact .inl (List.mem_append_left _ here)
      · exact .inr ⟨before, fun _ owned => Option.some.inj (busy.symm.trans owned) ▸ here⟩
    · exact .inl (List.mem_append_right _ (List.mem_singleton.mpr same))
  · intro other member
    exact (List.mem_append.mp member).imp (fits.live busy) List.mem_singleton.mp
  · intro place others other different owned member
    refine ⟨.inl (fits.live owned member), fun here => ?_⟩
    rcases List.mem_append.mp here with both | same
    · exact different (fits.alone owned busy member both)
    · exact fresh (List.mem_singleton.mp same ▸ fits.live owned member)
  · apply List.nodup_append.mpr
    refine ⟨fits.nodup busy, List.nodup_singleton resource, fun other member another single same => ?_⟩
    exact fresh (List.mem_singleton.mp single ▸ same ▸ fits.live busy member)

theorem Matches.closed [DecidableEq Resource] (fits : Matches held isOpen) (busy : held owner = some resources) (owned : resource ∈ resources) :
    Matches (Function.update held owner (some (resources.erase resource))) fun other => isOpen other ∧ other ≠ resource := by
  have nodup := fits.nodup busy
  apply fits.update
  · rintro other ⟨before, different⟩
    by_cases here : other ∈ resources
    · exact .inl ((List.mem_erase_of_ne different).mpr here)
    · exact .inr ⟨before, fun _ found => Option.some.inj (busy.symm.trans found) ▸ here⟩
  · intro other member
    obtain ⟨different, here⟩ := nodup.mem_erase_iff.mp member
    exact ⟨fits.live busy here, different⟩
  · intro place others other different found member
    refine ⟨⟨fits.live found member, fun same => ?_⟩, fun here => ?_⟩
    · exact different (fits.alone found busy member (same ▸ owned))
    · exact different (fits.alone found busy member (List.mem_of_mem_erase here))
  · exact nodup.erase resource

theorem Matches.ended (fits : Matches held isOpen) (empty : held owner = some []) :
    Matches (Function.update held owner none) isOpen where
  listed := fun opened => by
    obtain ⟨place, resources, owned, member⟩ := fits.listed opened
    have different : place ≠ owner := fun same => by
      rw [same, empty] at owned
      cases owned
      cases member
    exact ⟨place, resources, by rw [Function.update_of_ne different, owned], member⟩
  live := fun owned member => by
    rcases update_cases owned with ⟨_, gone⟩ | ⟨_, owned⟩
    · cases gone
    · exact fits.live owned member
  nodup := fun owned => by
    rcases update_cases owned with ⟨_, gone⟩ | ⟨_, owned⟩
    · cases gone
    · exact fits.nodup owned
  alone := fun owned owned' member member' => by
    rcases update_cases owned with ⟨_, gone⟩ | ⟨_, owned⟩
    · cases gone
    · rcases update_cases owned' with ⟨_, gone⟩ | ⟨_, owned'⟩
      · cases gone
      · exact fits.alone owned owned' member member'

omit [DecidableEq Owner] in
/-- Owners that hold few resources each have few open altogether. -/
theorem Matches.card_le [Fintype Owner] [DecidableEq Resource] (fits : Matches held isOpen) {limit : Nat}
    (few : ∀ owner resources, held owner = some resources → resources.length ≤ limit) (open' : Finset Resource)
    (all : ∀ resource ∈ open', isOpen resource) : open'.card ≤ (inBusiness held).card * limit := by
  have inside : open' ⊆ (inBusiness held).biUnion fun owner => ((held owner).getD []).toFinset := by
    intro resource member
    obtain ⟨owner, resources, owned, here⟩ := fits.listed (all resource member)
    apply Finset.mem_biUnion.mpr
    refine ⟨owner, Finset.mem_filter.mpr ⟨Finset.mem_univ owner, by rw [owned]; rfl⟩, ?_⟩
    rw [owned]
    exact List.mem_toFinset.mpr here
  apply (Finset.card_le_card inside).trans
  apply Finset.card_biUnion_le_card_mul
  intro owner member
  obtain ⟨resources, owned⟩ := Option.isSome_iff_exists.mp (Finset.mem_filter.mp member).2
  rw [owned]
  exact (List.toFinset_card_le resources).trans (few owner resources owned)

end Matches

end IstKvs.Ledgers
