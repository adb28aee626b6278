import Mathlib.Data.List.Nodup
import Mathlib.Data.List.Perm.Subperm
import Mathlib.Data.List.Range
import MiddleEnd.Proofs.Code.Links

/-! An arena stands for a collection of lists: whatever calls have made it, each block answers as the
list of its instructions does. -/

namespace MiddleEnd

open List

variable {arena later : Arena} {top node : Nat} {body : List (Instr BlockRef)}
  {touched front back ids : List Nat} {listing : Listing} {body' : List (Instr BlockRef)}
  {instr : Instr BlockRef} {other id : Nat} {block : BlockRef}

/-- The instructions of each block, given by the block's upper sentinel, and those that were taken out of
a block. -/
structure Listing where
  blocks : Nat → Option (List (Instr BlockRef))
  removed : List (Instr BlockRef)

namespace Listing

def empty : Listing := ⟨fun _ => none, []⟩

def set (listing : Listing) (top : Nat) (body : List (Instr BlockRef)) : Listing :=
  { listing with blocks := fun other => if other = top then some body else listing.blocks other }

def remove (listing : Listing) (instr : Instr BlockRef) : Listing :=
  { blocks := fun top => (listing.blocks top).map (·.filter (·.id != instr.id))
    removed := instr :: listing.removed }

def Linked (listing : Listing) (instr : Instr BlockRef) : Prop :=
  ∃ top body, listing.blocks top = some body ∧ instr ∈ body

def Added (listing : Listing) (instr : Instr BlockRef) : Prop :=
  listing.Linked instr ∨ instr ∈ listing.removed

end Listing

namespace Arena

/-- The arenas that calls lead to from the empty one, with the lists that these calls build. -/
inductive Edited : Arena → Listing → Prop where
  | empty : Edited .empty .empty
  | newBlock {arena : Arena} {listing : Listing} (edited : Edited arena listing) (name : String) :
      Edited (arena.newBlock name).1 (listing.set (arena.newBlock name).2.top [])
  | append {arena later : Arena} {listing : Listing} (edited : Edited arena listing) {block : BlockRef}
      {body : List (Instr BlockRef)} (made : listing.blocks block.top = some body) {name : String}
      {value : Value BlockRef} {span : Span} {id : Nat}
      (appended : arena.append block name value span = .ok (later, id)) :
      Edited later (listing.set block.top (body ++ [⟨id, name, span, value⟩]))
  | prepend {arena later : Arena} {listing : Listing} (edited : Edited arena listing) {block : BlockRef}
      {body : List (Instr BlockRef)} (made : listing.blocks block.top = some body) {name : String}
      {value : Value BlockRef} {span : Span} {id : Nat}
      (prepended : arena.prepend block name value span = .ok (later, id)) :
      Edited later (listing.set block.top (⟨id, name, span, value⟩ :: body))
  | remove {arena later : Arena} {listing : Listing} (edited : Edited arena listing)
      {instr : Instr BlockRef} (linked : listing.Linked instr)
      (removed : arena.remove instr.id = .ok later) : Edited later (listing.remove instr)

inductive Walks (arena : Arena) : Option Nat → List Nat → Prop where
  | ended : Walks arena none []
  | step {id : Nat} {ids : List Nat} (walks : Walks arena (arena.next? id) ids) :
      Walks arena (some id) (id :: ids)

/-- How an arena answers that stands for some lists. -/
structure Answers (arena : Arena) (listing : Listing) : Prop where
  data {instr : Instr BlockRef} (added : listing.Added instr) :
    arena.data instr.id = some (instr.name, instr.value, instr.span)
  distinct {top : Nat} {body : List (Instr BlockRef)} (made : listing.blocks top = some body) :
    (body.map Instr.id).Nodup
  disjoint {top top' : Nat} {body body' : List (Instr BlockRef)} (made : listing.blocks top = some body)
    (made' : listing.blocks top' = some body') (other : top ≠ top') :
    (body.map Instr.id).Disjoint (body'.map Instr.id)
  ids {block : BlockRef} {body : List (Instr BlockRef)} (made : listing.blocks block.top = some body) :
    arena.ids block = body.map Instr.id ∧ arena.Walks (arena.first? block) (body.map Instr.id)
  first {block : BlockRef} {body : List (Instr BlockRef)} (made : listing.blocks block.top = some body) :
    arena.first? block = body.head?.map Instr.id
  last {block : BlockRef} {body : List (Instr BlockRef)} (made : listing.blocks block.top = some body) :
    arena.last? block = body.getLast?.map Instr.id
  neighbours {top : Nat} {front back : List (Instr BlockRef)} {instr : Instr BlockRef}
    (made : listing.blocks top = some (front ++ instr :: back)) :
    arena.next? instr.id = back.head?.map Instr.id ∧
      arena.previous? instr.id = front.getLast?.map Instr.id
  inverse {instr instr' : Instr BlockRef} (added : listing.Added instr) (added' : listing.Added instr') :
    arena.next? instr.id = some instr'.id ↔ arena.previous? instr'.id = some instr.id
  linked {instr : Instr BlockRef} (linked : listing.Linked instr) : arena.isLinked instr.id = true
  removed {instr : Instr BlockRef} (removed : instr ∈ listing.removed) :
    arena.isLinked instr.id = false ∧ arena.next? instr.id = none ∧ arena.previous? instr.id = none ∧
      arena.remove instr.id = .error (.unlinked instr.name)
  /-- A block can be made at any time, and it is a new one. -/
  newBlock (name : String) : listing.blocks (arena.newBlock name).2.top = none
  /-- Instructions can be added to every block, and they are new ones. -/
  append {block : BlockRef} {body : List (Instr BlockRef)} (made : listing.blocks block.top = some body)
    (name : String) (value : Value BlockRef) (span : Span) :
    ∃ later id, arena.append block name value span = .ok (later, id) ∧
      ∀ instr, listing.Added instr → instr.id ≠ id
  prepend {block : BlockRef} {body : List (Instr BlockRef)} (made : listing.blocks block.top = some body)
    (name : String) (value : Value BlockRef) (span : Span) :
    ∃ later id, arena.prepend block name value span = .ok (later, id) ∧
      ∀ instr, listing.Added instr → instr.id ≠ id
  /-- What stands in a block can be removed, and nothing else. -/
  remove (id : Nat) : (∃ later, arena.remove id = .ok later) ↔ ∃ instr, listing.Linked instr ∧ instr.id = id

/-! ### Blocks as chains -/

def nodes (top : Nat) (body : List (Instr BlockRef)) : List Nat :=
  top :: (body.map Instr.id ++ [top + 1])

structure Holds (arena : Arena) (top : Nat) (body : List (Instr BlockRef)) : Prop where
  bound : ∀ node ∈ nodes top body, node < arena.size
  own : (nodes top body).Nodup
  chain : (nodes top body).IsChain arena.Joined
  starts : arena.upper top = none
  ends : arena.lower (top + 1) = none

structure Frames (arena later : Arena) (touched : List Nat) : Prop where
  grows : arena.size ≤ later.size
  links (node : Nat) (bound : node < arena.size) (other : node ∉ touched) :
    later.lower node = arena.lower node ∧ later.upper node = arena.upper node
  data (node : Nat) (bound : node < arena.size) : later.data node = arena.data node

section Holds

theorem mem_nodes : node ∈ nodes top body ↔ node = top ∨ node ∈ body.map Instr.id ∨ node = top + 1 := by
  simp [nodes]

theorem Holds.frame (holds : arena.Holds top body) (frames : arena.Frames later touched)
    (apart : ∀ node ∈ nodes top body, node ∉ touched) : later.Holds top body := by
  have same (node : Nat) (inside : node ∈ nodes top body) :=
    frames.links node (holds.bound node inside) (apart node inside)
  constructor
  · exact fun node inside => Nat.lt_of_lt_of_le (holds.bound node inside) frames.grows
  · exact holds.own
  · exact isChain_of_same holds.chain same
  · rw [(same top (mem_nodes.mpr (.inl rfl))).2, holds.starts]
  · rw [(same (top + 1) (mem_nodes.mpr (.inr (.inr rfl)))).1, holds.ends]

theorem Holds.linked (holds : arena.Holds top body) (inside : node ∈ nodes top body) :
    arena.lower node ≠ none ∨ arena.upper node ≠ none := by
  obtain ⟨front, back, split⟩ := append_of_mem inside
  have chain := holds.chain
  rw [split] at chain
  cases back with
  | cons _ _ =>
    have joined := (isChain_append_cons_cons.mp chain).2.1
    exact .inl (by simp [joined.1])
  | nil =>
    -- The last number of a block is not its first.
    rcases eq_nil_or_concat front with rfl | ⟨front, above, rfl⟩
    · simp [nodes] at split
    · rw [concat_eq_append, append_assoc] at chain
      have joined := (isChain_append_cons_cons.mp chain).2.1
      exact .inr (by simp [joined.2])

end Holds

/-- Every number of the arena belongs to one block or was taken out of one. -/
structure Represents (arena : Arena) (listing : Listing) : Prop where
  holds {top : Nat} {body : List (Instr BlockRef)} (made : listing.blocks top = some body) :
    arena.Holds top body
  apart {top top' : Nat} {body body' : List (Instr BlockRef)} (made : listing.blocks top = some body)
    (made' : listing.blocks top' = some body') {node : Nat} (inside : node ∈ nodes top body)
    (inside' : node ∈ nodes top' body') : top = top'
  loose {instr : Instr BlockRef} (removed : instr ∈ listing.removed) :
    instr.id < arena.size ∧ arena.lower instr.id = none ∧ arena.upper instr.id = none
  cover {id : Nat} (bound : id < arena.size) :
    (∃ top body, listing.blocks top = some body ∧ id ∈ nodes top body) ∨
      ∃ instr ∈ listing.removed, instr.id = id
  data {instr : Instr BlockRef} (added : listing.Added instr) :
    arena.data instr.id = some (instr.name, instr.value, instr.span)

theorem represents_empty : Arena.empty.Represents .empty where
  holds := nofun
  apart := nofun
  loose := nofun
  cover := nofun
  data := by
    rintro instr (⟨top, body, made, _⟩ | removed)
    · cases made
    · cases removed

end Arena

namespace Listing

def nodes (listing : Listing) (top : Nat) : List Nat :=
  ((listing.blocks top).map (Arena.nodes top)).getD []

theorem nodes_of_made (made : listing.blocks top = some body) :
    listing.nodes top = Arena.nodes top body := by
  rw [nodes, made, Option.map_some, Option.getD_some]

theorem exists_made (inside : node ∈ listing.nodes top) :
    ∃ body, listing.blocks top = some body ∧ node ∈ Arena.nodes top body := by
  cases found : listing.blocks top with
  | none => simp [nodes, found] at inside
  | some body => exact ⟨body, rfl, nodes_of_made found ▸ inside⟩

theorem blocks_set (listing : Listing) (top : Nat) (body : List (Instr BlockRef)) :
    (listing.set top body).blocks top = some body := by
  simp [set]

theorem blocks_set_of_ne (differs : other ≠ top) :
    (listing.set top body).blocks other = listing.blocks other := by
  simp [set, differs]

theorem cases_set (made : (listing.set top body).blocks other = some body') :
    other = top ∧ body' = body ∨ other ≠ top ∧ listing.blocks other = some body' := by
  by_cases same : other = top
  · subst same
    rw [blocks_set] at made
    exact .inl ⟨rfl, (Option.some.inj made).symm⟩
  · rw [blocks_set_of_ne same] at made
    exact .inr ⟨same, made⟩

end Listing

namespace Arena.Represents

section

variable (represents : arena.Represents listing)
include represents

theorem bound_of_added (added : listing.Added instr) : instr.id < arena.size := by
  rcases added with ⟨top, body, made, inside⟩ | removed
  · exact (represents.holds made).bound _ (mem_nodes.mpr (.inr (.inl (mem_map_of_mem inside))))
  · exact (represents.loose removed).1

theorem not_mem_of_made (made : listing.blocks other = some body) (inside : node ∈ nodes other body)
    (differs : other ≠ top) : node ∉ listing.nodes top := by
  intro inside'
  obtain ⟨_, made', inside'⟩ := Listing.exists_made inside'
  exact differs (represents.apart made made' inside inside')

theorem not_mem_of_removed (removed : instr ∈ listing.removed)
    (top : Nat) : instr.id ∉ listing.nodes top := by
  intro inside
  obtain ⟨_, made, inside⟩ := Listing.exists_made inside
  obtain ⟨_, lower, upper⟩ := represents.loose removed
  rcases (represents.holds made).linked inside with link | link
  · exact link lower
  · exact link upper

theorem change (gone : List (Instr BlockRef)) (frames : arena.Frames later (listing.nodes top))
    (holds : later.Holds top body)
    (fresh : ∀ node ∈ nodes top body, node ∈ listing.nodes top ∨ arena.size ≤ node)
    (cover : ∀ node < later.size, node ∈ listing.nodes top ∨ arena.size ≤ node →
      node ∈ nodes top body ∨ ∃ instr ∈ gone, instr.id = node)
    (loose : ∀ instr ∈ gone, instr.id < later.size ∧ later.lower instr.id = none ∧
      later.upper instr.id = none) (data : ∀ instr ∈ body ++ gone, listing.Added instr ∨
      later.data instr.id = some (instr.name, instr.value, instr.span)) :
    later.Represents ⟨(listing.set top body).blocks, gone ++ listing.removed⟩ := by
  have outside {node other : Nat} {body' : List (Instr BlockRef)} (inside : node ∈ nodes top body)
      (differs : other ≠ top) (made : listing.blocks other = some body') : node ∉ nodes other body' := by
    intro inside'
    rcases fresh node inside with before | new
    · exact represents.not_mem_of_made made inside' differs before
    · have bound := (represents.holds made).bound node inside'
      omega
  constructor
  · intro other body' made
    rcases Listing.cases_set made with ⟨rfl, rfl⟩ | ⟨differs, there⟩
    · exact holds
    · exact (represents.holds there).frame frames fun node inside =>
        represents.not_mem_of_made there inside differs
  · intro first second body₁ body₂ made made' node inside inside'
    rcases Listing.cases_set made with ⟨rfl, rfl⟩ | ⟨differs, there⟩ <;>
      rcases Listing.cases_set made' with ⟨rfl, rfl⟩ | ⟨differs', there'⟩
    · rfl
    · exact absurd inside' (outside inside differs' there')
    · exact absurd inside (outside inside' differs there)
    · exact represents.apart there there' inside inside'
  · intro instr removed
    rcases mem_append.mp removed with here | removed
    · exact loose instr here
    · obtain ⟨bound, lower, upper⟩ := represents.loose removed
      obtain ⟨lower_same, upper_same⟩ :=
        frames.links instr.id bound (represents.not_mem_of_removed removed top)
      exact ⟨Nat.lt_of_lt_of_le bound frames.grows, lower_same.trans lower, upper_same.trans upper⟩
  · intro id bound
    have here (mine : id ∈ listing.nodes top ∨ arena.size ≤ id) :
        (∃ top' body', (listing.set top body).blocks top' = some body' ∧ id ∈ nodes top' body') ∨
          ∃ instr ∈ gone ++ listing.removed, instr.id = id := by
      rcases cover id bound mine with inside | ⟨instr, mem, same⟩
      · exact .inl ⟨top, body, listing.blocks_set top body, inside⟩
      · exact .inr ⟨instr, mem_append_left _ mem, same⟩
    by_cases new : arena.size ≤ id
    · exact here (.inr new)
    · rcases represents.cover (Nat.lt_of_not_le new) with ⟨other, body', made, inside⟩ | ⟨instr, removed, same⟩
      · by_cases same : other = top
        · subst same
          exact here (.inl (Listing.nodes_of_made made ▸ inside))
        · exact .inl ⟨other, body', (Listing.blocks_set_of_ne same).trans made, inside⟩
      · exact .inr ⟨instr, mem_append_right _ removed, same⟩
  · intro instr added
    have before (added : listing.Added instr) :
        later.data instr.id = some (instr.name, instr.value, instr.span) := by
      rw [frames.data _ (represents.bound_of_added added), represents.data added]
    have here (mem : instr ∈ body ++ gone) := (data instr mem).elim before id
    rcases added with ⟨other, body', made, mem⟩ | removed
    · rcases Listing.cases_set made with ⟨rfl, rfl⟩ | ⟨_, there⟩
      · exact here (mem_append_left _ mem)
      · exact before (.inl ⟨other, body', there, mem⟩)
    · rcases mem_append.mp removed with mem | removed
      · exact here (mem_append_right _ mem)
      · exact before (.inr removed)

end

end Arena.Represents

/-! ### Each call changes one list -/

namespace Arena

variable {above below : Nat}

theorem frames_newBlock (name : String) : arena.Frames (arena.newBlock name).1 touched where
  grows := by simp [size_newBlock]
  links node bound _ := by
    rw [lower_newBlock, upper_newBlock]
    simp [Nat.ne_of_lt bound, Nat.ne_of_lt (Nat.lt_succ_of_lt bound)]
  data _ bound := data_newBlock name bound

theorem frames_insert (above_bound : above < arena.size) (below_bound : below < arena.size)
    (above_touched : above ∈ touched) (below_touched : below ∈ touched) (name : String)
    (value : Value BlockRef) (span : Span) :
    arena.Frames (arena.insert above below name value span).1 touched where
  grows := by simp [size_insert]
  links node bound other := by
    have not_above : node ≠ above := fun same => other (same ▸ above_touched)
    have not_below : node ≠ below := fun same => other (same ▸ below_touched)
    rw [lower_insert _ _ _ _ above_bound, upper_insert _ _ _ _ below_bound]
    simp [Nat.ne_of_lt bound, not_above, not_below]
  data node bound := by rw [data_insert, if_neg (Nat.ne_of_lt bound)]

theorem frames_unlink (above_bound : above < arena.size) (bound : id < arena.size)
    (below_bound : below < arena.size) (above_touched : above ∈ touched) (id_touched : id ∈ touched)
    (below_touched : below ∈ touched) : arena.Frames (arena.unlink above id below) touched where
  grows := by simp
  links node _ other := by
    have not_above : node ≠ above := fun same => other (same ▸ above_touched)
    have not_id : node ≠ id := fun same => other (same ▸ id_touched)
    have not_below : node ≠ below := fun same => other (same ▸ below_touched)
    rw [lower_unlink _ above_bound bound, upper_unlink _ below_bound bound]
    simp [not_above, not_id, not_below]
  data node _ := data_unlink _ _ node

theorem holds_newBlock (name : String) : (arena.newBlock name).1.Holds arena.size [] where
  bound node inside := by
    rw [size_newBlock]
    rcases mem_nodes.mp inside with rfl | inside | rfl
    · omega
    · cases inside
    · omega
  own := by simp [nodes]
  chain := by
    refine isChain_pair.mpr ⟨?_, ?_⟩
    · simp [lower_newBlock]
    · simp [upper_newBlock]
  starts := by simp [upper_newBlock]
  ends := by simp [lower_newBlock]

section splice

variable {between : List Nat}

section

variable (holds : arena.Holds top body)
include holds

theorem Holds.splice (later : Arena)
    (split : nodes top body = (front ++ [above]) ++ between ++ (below :: back))
    (lower : ∀ node ∈ nodes top body, node ∉ between → node ≠ above → later.lower node = arena.lower node)
    (upper : ∀ node ∈ nodes top body, node ∉ between → node ≠ below → later.upper node = arena.upper node) :
    (front ++ [above]).IsChain later.Joined ∧ (below :: back).IsChain later.Joined := by
  obtain ⟨_, nodup, chain, _, _⟩ := holds
  rw [split] at nodup chain lower upper
  obtain ⟨_, _, back_apart⟩ := nodup_append.mp nodup
  obtain ⟨front_chain, back_chain, enters⟩ := isChain_append.mp chain
  rw [append_assoc] at nodup chain
  obtain ⟨_, _, front_apart⟩ := nodup_append.mp nodup
  obtain ⟨front_chain, _, leaves⟩ := isChain_append.mp chain
  constructor
  · refine isChain_front front_chain ?_ ?_ ?_
    · intro node inside leads
      obtain ⟨next, next_head⟩ : ∃ next, next ∈ (between ++ below :: back).head? :=
        Option.isSome_iff_exists.mp (by cases between <;> rfl)
      have joined := leaves above (by simp) next next_head
      obtain rfl : next = node := Option.some.inj (joined.1.symm.trans leads)
      exact front_apart next inside next (mem_of_mem_head? next_head) rfl
    · intro node inside other
      refine lower node (mem_append_left _ (mem_append_left _ inside)) (fun there => ?_) other
      exact front_apart node inside node (mem_append_left _ there) rfl
    · intro node inside
      refine upper node (mem_append_left _ (mem_append_left _ inside)) (fun there => ?_) (fun same => ?_)
      · exact front_apart node inside node (mem_append_left _ there) rfl
      · exact front_apart node inside below (by simp) same
  · refine isChain_back back_chain ?_ ?_ ?_
    · intro node inside leads
      obtain ⟨previous, previous_last⟩ : ∃ previous, previous ∈ (front ++ [above] ++ between).getLast? :=
        Option.isSome_iff_exists.mp (by simp)
      have joined := enters previous previous_last below (by simp)
      obtain rfl : previous = node := Option.some.inj (joined.2.symm.trans leads)
      exact back_apart previous (mem_of_mem_getLast? previous_last) previous inside rfl
    · intro node inside
      refine lower node (mem_append_right _ inside) (fun there => ?_) (fun same => ?_)
      · exact back_apart node (mem_append_right _ there) node inside rfl
      · exact back_apart above (by simp) node inside same.symm
    · intro node inside other
      refine upper node (mem_append_right _ inside) (fun there => ?_) other
      exact back_apart node (mem_append_right _ there) node inside rfl

theorem Holds.ne_top (link : arena.upper below = some above) : top ≠ below := by
  rintro rfl
  cases holds.starts.symm.trans link

theorem Holds.ne_bottom (link : arena.lower above = some below) : top + 1 ≠ above := by
  rintro rfl
  cases holds.ends.symm.trans link

theorem Holds.insert (split : nodes top body = (front ++ [above]) ++ [] ++ (below :: back))
    (result : nodes top body' = (front ++ [above]) ++ arena.size :: below :: back) (name : String)
    (value : Value BlockRef) (span : Span) :
    (arena.insert above below name value span).1.Holds top body' := by
  have joined : arena.Joined above below := by
    have chain := holds.chain
    rw [split, append_nil] at chain
    exact (isChain_append.mp chain).2.2 above (by simp) below (by simp)
  have above_bound : above < arena.size := holds.bound above (by simp [split])
  have below_bound : below < arena.size := holds.bound below (by simp [split])
  have top_bound : top < arena.size := holds.bound top (mem_nodes.mpr (.inl rfl))
  have bottom_bound : top + 1 < arena.size := holds.bound (top + 1) (mem_nodes.mpr (.inr (.inr rfl)))
  have lower (id : Nat) := lower_insert below name value span above_bound id
  have upper (id : Nat) := upper_insert above name value span below_bound id
  have grown : (nodes top body').Perm (arena.size :: nodes top body) := by
    rw [result, split, append_nil]
    exact perm_middle
  obtain ⟨front_chain, back_chain⟩ := holds.splice (arena.insert above below name value span).1 split
    (fun node inside _ other => by
      rw [lower, if_neg (Nat.ne_of_lt (holds.bound node inside)), if_neg other])
    (fun node inside _ other => by
      rw [upper, if_neg other, if_neg (Nat.ne_of_lt (holds.bound node inside))])
  constructor
  · intro node inside
    rw [size_insert]
    rcases mem_cons.mp (grown.mem_iff.mp inside) with rfl | inside
    · omega
    · exact Nat.lt_succ_of_lt (holds.bound node inside)
  · refine grown.nodup_iff.mpr (nodup_cons.mpr ⟨fun inside => ?_, holds.own⟩)
    exact Nat.lt_irrefl _ (holds.bound _ inside)
  · rw [result]
    refine isChain_append.mpr ⟨front_chain, isChain_cons_cons.mpr ⟨?_, back_chain⟩, ?_⟩
    · exact ⟨by simp [lower], by simp [upper]⟩
    · intro last is_last first is_first
      obtain rfl : above = last := by simpa using is_last
      obtain rfl : arena.size = first := by simpa using is_first
      refine ⟨?_, ?_⟩
      · rw [lower, if_neg (Nat.ne_of_lt above_bound), if_pos rfl]
      · rw [upper, if_neg (Nat.ne_of_gt below_bound), if_pos rfl]
  · rw [upper, if_neg (holds.ne_top joined.2), if_neg (Nat.ne_of_lt top_bound), holds.starts]
  · rw [lower, if_neg (Nat.ne_of_lt bottom_bound), if_neg (holds.ne_bottom joined.1), holds.ends]

theorem Holds.joined (split : nodes top body = (front ++ [above]) ++ [id] ++ (below :: back)) :
    arena.Joined above id ∧ arena.Joined id below := by
  have chain := holds.chain
  rw [split] at chain
  obtain ⟨upper_chain, _, seam⟩ := isChain_append.mp chain
  exact ⟨(isChain_append.mp upper_chain).2.2 above (by simp) id (by simp),
    seam id (by simp) below (by simp)⟩

theorem Holds.unlink (split : nodes top body = (front ++ [above]) ++ [id] ++ (below :: back))
    (result : nodes top body' = (front ++ [above]) ++ (below :: back)) :
    (arena.unlink above id below).Holds top body' := by
  have joined := holds.joined split
  have above_bound : above < arena.size := holds.bound above (by simp [split])
  have bound : id < arena.size := holds.bound id (by simp [split])
  have below_bound : below < arena.size := holds.bound below (by simp [split])
  have lower (other : Nat) := lower_unlink below above_bound bound other
  have upper (other : Nat) := upper_unlink above below_bound bound other
  have shrunk : (nodes top body).Perm (id :: nodes top body') := by
    rw [result, split, append_assoc]
    exact perm_middle
  obtain ⟨absent, own⟩ := nodup_cons.mp (shrunk.nodup_iff.mp holds.own)
  obtain ⟨front_chain, back_chain⟩ := holds.splice (arena.unlink above id below) split
    (fun node _ outside other => by
      rw [lower, if_neg (by simpa using outside), if_neg other])
    (fun node _ outside other => by
      rw [upper, if_neg (by simpa using outside), if_neg other])
  have above_other : above ≠ id := fun same => absent (by simp [result, same])
  have below_other : below ≠ id := fun same => absent (by simp [result, same])
  constructor
  · intro node inside
    rw [size_unlink]
    exact holds.bound node (shrunk.mem_iff.mpr (.tail _ inside))
  · exact own
  · rw [result]
    refine isChain_append.mpr ⟨front_chain, back_chain, ?_⟩
    intro last is_last first is_first
    obtain rfl : above = last := by simpa using is_last
    obtain rfl : below = first := by simpa using is_first
    exact ⟨by rw [lower, if_neg above_other, if_pos rfl], by rw [upper, if_neg below_other, if_pos rfl]⟩
  · rw [upper, if_neg (holds.ne_top joined.1.2), if_neg (holds.ne_top joined.2.2), holds.starts]
  · rw [lower, if_neg (holds.ne_bottom joined.2.1), if_neg (holds.ne_bottom joined.1.1), holds.ends]

end

theorem exists_last (top : Nat) (ids : List Nat) : ∃ front above, top :: ids = front ++ [above] := by
  rcases eq_nil_or_concat (top :: ids) with empty | ⟨front, above, same⟩
  · cases empty
  · exact ⟨front, above, by simpa using same⟩

theorem exists_first (ids : List Nat) (bottom : Nat) : ∃ below back, ids ++ [bottom] = below :: back := by
  cases ids <;> simp

theorem exists_split (top : Nat) (before after : List (Instr BlockRef)) (instr : Instr BlockRef) :
    ∃ front above below back,
      nodes top (before ++ instr :: after) = (front ++ [above]) ++ [instr.id] ++ (below :: back) ∧
      nodes top (before ++ after) = (front ++ [above]) ++ (below :: back) := by
  obtain ⟨front, above, upper_same⟩ := exists_last top (before.map Instr.id)
  obtain ⟨below, back, lower_same⟩ := exists_first (after.map Instr.id) (top + 1)
  refine ⟨front, above, below, back, ?_⟩
  rw [← upper_same, ← lower_same]
  simp [nodes]

end splice

namespace Represents

theorem newBlock (represents : arena.Represents listing) (name : String) :
    (arena.newBlock name).1.Represents (listing.set (arena.newBlock name).2.top []) := by
  refine represents.change [] (frames_newBlock name) (holds_newBlock name) ?_ ?_ nofun nofun
  · intro node inside
    rcases mem_nodes.mp inside with rfl | inside | rfl
    · exact .inr (Nat.le_refl _)
    · cases inside
    · exact .inr (Nat.le_succ _)
  · intro node bound mine
    rw [size_newBlock] at bound
    rcases mine with inside | new
    · obtain ⟨_, made, _⟩ := Listing.exists_made inside
      have clash := (represents.holds made).bound _ (mem_nodes.mpr (.inl rfl))
      exact absurd clash (Nat.lt_irrefl _)
    · refine .inl (mem_nodes.mpr ?_)
      change node = arena.size ∨ node ∈ [] ∨ node = arena.size + 1
      have either : node = arena.size ∨ node = arena.size + 1 := by omega
      exact either.imp_right .inr

section

variable (represents : arena.Represents listing)
include represents

theorem insert (made : listing.blocks top = some body)
    (split : nodes top body = (front ++ [above]) ++ [] ++ (below :: back))
    (result : nodes top body' = (front ++ [above]) ++ arena.size :: below :: back) (name : String)
    (value : Value BlockRef) (span : Span)
    (members : ∀ instr ∈ body', instr ∈ body ∨ instr = ⟨arena.size, name, span, value⟩) :
    (arena.insert above below name value span).1.Represents (listing.set top body') := by
  have holds := represents.holds made
  have nodes_eq := Listing.nodes_of_made made
  have grown (node : Nat) : node ∈ nodes top body' ↔ node = arena.size ∨ node ∈ nodes top body := by
    rw [result, split, append_nil, perm_middle.mem_iff, mem_cons]
  refine represents.change [] (frames_insert ?_ ?_ ?_ ?_ name value span)
    (holds.insert split result name value span) ?_ ?_ nofun ?_
  · exact holds.bound above (by simp [split])
  · exact holds.bound below (by simp [split])
  · simp [nodes_eq, split]
  · simp [nodes_eq, split]
  · intro node inside
    rcases (grown node).mp inside with rfl | inside
    · exact .inr (Nat.le_refl _)
    · exact .inl (nodes_eq ▸ inside)
  · intro node bound mine
    rw [size_insert] at bound
    refine .inl ((grown node).mpr ?_)
    rcases mine with inside | new
    · exact .inr (nodes_eq ▸ inside)
    · exact .inl (by omega)
  · intro instr mem
    rcases members instr (by simpa using mem) with old | rfl
    · exact .inl (.inl ⟨top, body, made, old⟩)
    · exact .inr (by rw [data_insert, if_pos rfl])

theorem append (made : listing.blocks block.top = some body)
    (name : String) (value : Value BlockRef) (span : Span) :
    ∃ later, arena.append block name value span = .ok (later, arena.size) ∧
      later.Represents (listing.set block.top (body ++ [⟨arena.size, name, span, value⟩])) := by
  obtain ⟨front, above, same⟩ := exists_last block.top (body.map Instr.id)
  have split : nodes block.top body = (front ++ [above]) ++ [] ++ [block.bottom] := by
    rw [← same, append_nil]
    rfl
  have joined : arena.upper block.bottom = some above := by
    have chain := (represents.holds made).chain
    rw [split, append_nil] at chain
    exact ((isChain_append.mp chain).2.2 above (by simp) block.bottom (by simp)).2
  refine ⟨_, append_eq block joined name value span, represents.insert made split ?_ name value span ?_⟩
  · rw [← same]
    simp [nodes, BlockRef.bottom]
  · simp

theorem prepend (made : listing.blocks block.top = some body)
    (name : String) (value : Value BlockRef) (span : Span) :
    ∃ later, arena.prepend block name value span = .ok (later, arena.size) ∧
      later.Represents (listing.set block.top (⟨arena.size, name, span, value⟩ :: body)) := by
  obtain ⟨below, back, same⟩ := exists_first (body.map Instr.id) (block.top + 1)
  have split : nodes block.top body = ([] ++ [block.top]) ++ [] ++ below :: back := by
    rw [← same]
    rfl
  have joined : arena.lower block.top = some below := by
    have chain := (represents.holds made).chain
    rw [split] at chain
    exact (isChain_cons_cons.mp chain).1.1
  refine ⟨_, prepend_eq block joined name value span, represents.insert made split ?_ name value span ?_⟩
  · rw [← same]
    simp [nodes]
  · simp [or_comm]

theorem remove_listing {before after : List (Instr BlockRef)}
    (made : listing.blocks top = some (before ++ instr :: after)) :
    listing.remove instr = ⟨(listing.set top (before ++ after)).blocks, [instr] ++ listing.removed⟩ := by
  have mine : instr.id ∈ nodes top (before ++ instr :: after) := by simp [nodes]
  have blocks : (listing.remove instr).blocks = (listing.set top (before ++ after)).blocks := by
    funext other
    by_cases same : other = top
    · subst same
      have own := (represents.holds made).own
      simp only [nodes, map_append, map_cons, append_assoc, cons_append,
        nodup_cons, nodup_append, mem_append, mem_cons, mem_map] at own
      rw [Listing.blocks_set]
      simp only [Listing.remove, made, Option.map_some, Option.some.injEq, filter_append]
      rw [filter_eq_self.mpr, filter_cons_of_neg (by simp), filter_eq_self.mpr]
      · intro other mem
        grind
      · intro other mem
        grind
    · rw [Listing.blocks_set_of_ne same]
      cases there : listing.blocks other with
      | none => simp [Listing.remove, there]
      | some body' =>
        simp only [Listing.remove, there, Option.map_some, Option.some.injEq, filter_eq_self,
          bne_iff_ne]
        intro _ mem clash
        have yours : instr.id ∈ nodes other body' :=
          mem_nodes.mpr (.inr (.inl (clash ▸ mem_map_of_mem mem)))
        exact same (represents.apart there made yours mine)
  rw [← blocks]
  rfl

theorem remove (linked : listing.Linked instr) :
    ∃ later, arena.remove instr.id = .ok later ∧ later.Represents (listing.remove instr) := by
  obtain ⟨top, _, made, inside⟩ := linked
  obtain ⟨before, after, rfl⟩ := append_of_mem inside
  rw [represents.remove_listing made]
  have holds := represents.holds made
  have nodes_eq := Listing.nodes_of_made made
  obtain ⟨front, above, below, back, split, result⟩ := exists_split top before after instr
  have shrunk (node : Nat) : node ∈ nodes top (before ++ instr :: after) ↔
      node = instr.id ∨ node ∈ nodes top (before ++ after) := by
    rw [result, split, append_assoc, singleton_append, perm_middle.mem_iff, mem_cons]
  have bound (node : Nat) (mem : node ∈ (front ++ [above]) ++ [instr.id] ++ (below :: back)) :
      node < arena.size := holds.bound node (split ▸ mem)
  have joined := holds.joined split
  refine ⟨_, remove_eq joined.1.2 joined.2.1, represents.change [instr] ?_ (holds.unlink split result)
    ?_ ?_ ?_ ?_⟩
  · rw [nodes_eq, split]
    exact frames_unlink (bound _ (by simp)) (bound _ (by simp)) (bound _ (by simp)) (by simp) (by simp)
      (by simp)
  · intro node inside
    exact .inl (nodes_eq ▸ (shrunk node).mpr (.inr inside))
  · intro node node_bound mine
    rw [size_unlink] at node_bound
    rcases mine with inside | new
    · rcases (shrunk node).mp (nodes_eq ▸ inside) with same | inside
      · exact .inr ⟨instr, mem_singleton_self _, same.symm⟩
      · exact .inl inside
    · omega
  · intro other mem
    obtain rfl := mem_singleton.mp mem
    have id_bound : other.id < arena.size := bound _ (by simp)
    rw [size_unlink, lower_unlink _ (bound _ (by simp)) id_bound, upper_unlink _ (bound _ (by simp)) id_bound]
    exact ⟨id_bound, if_pos rfl, if_pos rfl⟩
  · intro other mem
    refine .inl (.inl ⟨top, _, made, ?_⟩)
    simp only [append_assoc, mem_append, mem_cons] at mem ⊢
    tauto

end

end Represents

theorem Edited.represents (edited : Edited arena listing) : arena.Represents listing := by
  induction edited with
  | empty => exact represents_empty
  | newBlock _ name ih => exact ih.newBlock name
  | append _ made appended ih =>
    obtain ⟨later, done, represents⟩ := ih.append made _ _ _
    obtain ⟨rfl, rfl⟩ := Prod.mk.inj (Except.ok.inj (appended.symm.trans done))
    exact represents
  | prepend _ made prepended ih =>
    obtain ⟨later, done, represents⟩ := ih.prepend made _ _ _
    obtain ⟨rfl, rfl⟩ := Prod.mk.inj (Except.ok.inj (prepended.symm.trans done))
    exact represents
  | remove _ linked removed ih =>
    obtain ⟨later, done, represents⟩ := ih.remove linked
    obtain rfl := Except.ok.inj (removed.symm.trans done)
    exact represents

/-! ### Answers -/

section Holds

theorem Holds.next? (holds : arena.Holds top body)
    (split : nodes top body = front ++ node :: (ids ++ [top + 1])) : arena.next? node = ids.head? := by
  have chain := holds.chain
  rw [split] at chain
  cases ids with
  | nil =>
    have joined := (isChain_append_cons_cons.mp chain).2.1
    refine Option.eq_none_iff_forall_ne_some.mpr fun below found => ?_
    obtain ⟨link, further⟩ := next?_eq_some.mp found
    obtain rfl : top + 1 = below := Option.some.inj (joined.1.symm.trans link)
    exact further holds.ends
  | cons _ ids =>
    obtain ⟨next, _, same⟩ := exists_first ids (top + 1)
    rw [cons_append, same] at chain
    obtain ⟨_, joined, chain⟩ := isChain_append_cons_cons.mp chain
    have further := (isChain_cons_cons.mp chain).1
    exact next?_eq_some.mpr ⟨joined.1, by simp [further.1]⟩

theorem Holds.previous? (holds : arena.Holds top body)
    (split : nodes top body = (top :: ids) ++ node :: back) : arena.previous? node = ids.getLast? := by
  have chain := holds.chain
  rw [split] at chain
  rcases eq_nil_or_concat ids with rfl | ⟨ids, above, rfl⟩
  · have joined := (isChain_cons_cons.mp chain).1
    refine Option.eq_none_iff_forall_ne_some.mpr fun above found => ?_
    obtain ⟨link, further⟩ := previous?_eq_some.mp found
    obtain rfl : top = above := Option.some.inj (joined.2.symm.trans link)
    exact further holds.starts
  · obtain ⟨_, previous, same⟩ := exists_last top ids
    rw [concat_eq_append, ← cons_append, same, append_assoc, append_assoc] at chain
    obtain ⟨_, further, chain⟩ := isChain_append_cons_cons.mp chain
    have joined := (isChain_cons_cons.mp chain).1
    rw [concat_eq_append, getLast?_concat]
    exact previous?_eq_some.mpr ⟨joined.2, by simp [further.2]⟩

theorem Holds.walks (holds : arena.Holds top body)
    (split : nodes top body = front ++ node :: (ids ++ [top + 1])) :
    arena.Walks (arena.next? node) ids := by
  induction ids generalizing front node with
  | nil =>
    rw [holds.next? split]
    exact .ended
  | cons id ids ih =>
    have further : nodes top body = (front ++ [node]) ++ id :: (ids ++ [top + 1]) := by simp [split]
    rw [holds.next? split]
    exact .step (ih further)

end Holds

theorem Walks.idsFrom {start : Option Nat} (walks : arena.Walks start ids) {fuel : Nat}
    (enough : ids.length ≤ fuel) : arena.idsFrom fuel start = ids := by
  induction walks generalizing fuel with
  | ended => cases fuel <;> rfl
  | step _ ih =>
    cases fuel with
    | zero => simp at enough
    | succ _ => rw [Arena.idsFrom, ih (by simpa using enough)]

theorem Holds.nodup (holds : arena.Holds top body) : (body.map Instr.id).Nodup := by
  have own := holds.own
  rw [nodes, nodup_cons, nodup_append] at own
  exact own.2.1

theorem Holds.length_le (holds : arena.Holds top body) : (body.map Instr.id).length ≤ arena.size := by
  have subset : body.map Instr.id ⊆ range arena.size := fun id mem =>
    mem_range.mpr (holds.bound id (mem_nodes.mpr (.inr (.inl mem))))
  simpa using (holds.nodup.subperm subset).length_le

namespace Represents

section

variable (represents : arena.Represents listing)
include represents

theorem exists_joined (linked : listing.Linked instr) :
    ∃ above below, arena.Joined above instr.id ∧ arena.Joined instr.id below := by
  obtain ⟨top, _, made, inside⟩ := linked
  obtain ⟨before, after, rfl⟩ := append_of_mem inside
  obtain ⟨front, above, below, back, split, -⟩ := exists_split top before after instr
  exact ⟨above, below, (represents.holds made).joined split⟩

theorem linked_of_remove (removed : arena.remove id = .ok later) :
    ∃ instr, listing.Linked instr ∧ instr.id = id := by
  obtain ⟨upper, lower⟩ := links_of_remove removed
  have bound : id < arena.size := by
    by_contra large
    refine lower ?_
    rw [Arena.lower, Array.getElem?_eq_none (Nat.le_of_not_lt large)]
    rfl
  rcases represents.cover bound with ⟨top, body, made, inside⟩ | ⟨instr, loose, rfl⟩
  · have holds := represents.holds made
    rcases mem_nodes.mp inside with rfl | inside | rfl
    · exact absurd holds.starts upper
    · obtain ⟨instr, mem, rfl⟩ := mem_map.mp inside
      exact ⟨instr, ⟨top, body, made, mem⟩, rfl⟩
    · exact absurd holds.ends lower
  · exact absurd (represents.loose loose).2.1 lower

theorem next?_iff_previous? {instr' : Instr BlockRef}
    (added : listing.Added instr) (added' : listing.Added instr') :
    arena.next? instr.id = some instr'.id ↔ arena.previous? instr'.id = some instr.id := by
  rw [next?_eq_some, previous?_eq_some]
  constructor
  · rintro ⟨link, _⟩
    rcases added with linked | removed
    · obtain ⟨above, below, before, after⟩ := represents.exists_joined linked
      obtain rfl : below = instr'.id := Option.some.inj (after.1.symm.trans link)
      exact ⟨after.2, by simp [before.2]⟩
    · cases (represents.loose removed).2.1.symm.trans link
  · rintro ⟨link, _⟩
    rcases added' with linked | removed
    · obtain ⟨above, below, before, after⟩ := represents.exists_joined linked
      obtain rfl : above = instr.id := Option.some.inj (before.2.symm.trans link)
      exact ⟨before.1, by simp [after.1]⟩
    · cases (represents.loose removed).2.2.symm.trans link

theorem new_of_added (instr : Instr BlockRef) (added : listing.Added instr) : instr.id ≠ arena.size :=
  Nat.ne_of_lt (represents.bound_of_added added)

end

end Represents

/-- Whatever calls have been made, the arena answers as the lists do that these calls build. -/
theorem Edited.answers (edited : Edited arena listing) : arena.Answers listing := by
  have represents := edited.represents
  -- The numbers of a block, read from its upper and from its lower sentinel.
  have down (top : Nat) (body : List (Instr BlockRef)) :
      nodes top body = [] ++ top :: (body.map Instr.id ++ [top + 1]) := rfl
  have up (top : Nat) (body : List (Instr BlockRef)) :
      nodes top body = (top :: body.map Instr.id) ++ (top + 1) :: [] := rfl
  have middle {top : Nat} {body : List (Instr BlockRef)} (made : listing.blocks top = some body) {id : Nat}
      (member : id ∈ body.map Instr.id) : id ∈ nodes top body := mem_nodes.mpr (.inr (.inl member))
  constructor
  · exact represents.data
  · intro top body made
    exact (represents.holds made).nodup
  · intro top top' body body' made made' other id member member'
    exact other (represents.apart made made' (middle made member) (middle made' member'))
  · intro block body made
    have holds := represents.holds made
    have walks := holds.walks (down block.top body)
    exact ⟨walks.idsFrom holds.length_le, walks⟩
  · intro block body made
    rw [← List.head?_map]
    exact (represents.holds made).next? (down block.top body)
  · intro block body made
    rw [← List.getLast?_map]
    exact (represents.holds made).previous? (up block.top body)
  · intro top front back instr made
    have holds := represents.holds made
    rw [← List.head?_map, ← List.getLast?_map]
    have split : nodes top (front ++ instr :: back) =
        (top :: front.map Instr.id) ++ instr.id :: (back.map Instr.id ++ [top + 1]) := by simp [nodes]
    exact ⟨holds.next? split, holds.previous? split⟩
  · exact represents.next?_iff_previous?
  · intro instr linked
    obtain ⟨above, below, before, _⟩ := represents.exists_joined linked
    exact Option.isSome_iff_exists.mpr ⟨above, before.2⟩
  · intro instr removed
    obtain ⟨_, lower, upper⟩ := represents.loose removed
    refine ⟨Option.isSome_eq_false_iff.mpr (Option.isNone_iff_eq_none.mpr upper), ?_, ?_,
      remove_loose (.inl upper) (represents.data (.inr removed))⟩
    · exact Option.eq_none_iff_forall_ne_some.mpr fun below found => by
        cases lower.symm.trans (next?_eq_some.mp found).1
    · exact Option.eq_none_iff_forall_ne_some.mpr fun above found => by
        cases upper.symm.trans (previous?_eq_some.mp found).1
  · intro name
    by_contra made
    obtain ⟨body, made⟩ := Option.ne_none_iff_exists'.mp made
    exact Nat.lt_irrefl _ ((represents.holds made).bound _ (mem_nodes.mpr (.inl rfl)))
  · intro block body made name value span
    obtain ⟨later, done, _⟩ := represents.append made name value span
    exact ⟨later, arena.size, done, represents.new_of_added⟩
  · intro block body made name value span
    obtain ⟨later, done, _⟩ := represents.prepend made name value span
    exact ⟨later, arena.size, done, represents.new_of_added⟩
  · intro id
    constructor
    · rintro ⟨later, removed⟩
      exact represents.linked_of_remove removed
    · rintro ⟨instr, linked, rfl⟩
      obtain ⟨later, done, _⟩ := represents.remove linked
      exact ⟨later, done⟩

/-- Two instructions are added to a block, at its end and at its start, and the first one is taken out
again. -/
theorem Edited.answers_removed : ∃ (arena : Arena) (listing : Listing) (x y : Instr BlockRef),
    arena.Edited listing ∧ listing.blocks 0 = some [y] ∧ listing.removed = [x] ∧
      arena.ids ⟨"block", 0⟩ = [y.id] ∧ arena.isLinked x.id = false ∧ arena.Answers listing := by
  let block : BlockRef := ⟨"block", 0⟩
  let x : Instr BlockRef := ⟨2, "x", default, .op .nop⟩
  have start : Edited _ (.set .empty block.top []) := .newBlock .empty "block"
  have made := Listing.blocks_set .empty block.top []
  obtain ⟨grown, appended, _⟩ := start.represents.append made "x" (.op .nop) default
  have one : Edited grown (.set _ block.top [x]) := start.append made appended
  have made := Listing.blocks_set (.set .empty block.top []) block.top [x]
  have new := one.represents.new_of_added x (.inl ⟨block.top, [x], made, List.mem_singleton_self x⟩)
  let y : Instr BlockRef := ⟨grown.size, "y", default, .op .nop⟩
  obtain ⟨later, prepended, _⟩ := one.represents.prepend made "y" (.op .nop) default
  let full : Listing := .set (.set (.set .empty block.top []) block.top [x]) block.top [y, x]
  have two : Edited later full := one.prepend made prepended
  have made : full.blocks block.top = some [y, x] := Listing.blocks_set _ _ _
  have linked : full.Linked x := ⟨block.top, [y, x], made, by simp⟩
  obtain ⟨final, removed, _⟩ := two.represents.remove linked
  have three := two.remove linked removed
  have left : (full.remove x).blocks block.top = some [y] := by
    simp only [Listing.remove, made, Option.map_some, Option.some.injEq]
    rw [List.filter_cons_of_pos (by simpa using new.symm), List.filter_cons_of_neg (by simp),
      List.filter_nil]
  have answers := three.answers
  exact ⟨final, _, x, y, three, left, rfl, (answers.ids left).1,
    (answers.removed List.mem_cons_self).1, answers⟩

end Arena

end MiddleEnd
