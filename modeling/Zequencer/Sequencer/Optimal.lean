/-
# The slot is the best arrangement

Each market of a slot holds its intents in the arrangement that is least by rank among all
that keep every submitter in nonce order, so the greedy merge misses nothing a search would
find.  A bid that is raised does not cost its intent a place.
-/
import Zequencer.Sequencer.Policy

namespace Zequencer

open Merge

/-- `block` holds these intents, and every submitter's in ascending nonce order. -/
structure Arrangement (intents block : List Pending) : Prop where
  perm : block.Perm intents
  nonces : block.Pairwise fun p q => p.submitter = q.submitter → p.nonce < q.nonce

/-- The arrangement that is least by rank, compared position by position. -/
structure LeastArrangement (intents block : List Pending) : Prop
    extends Arrangement intents block where
  least : ∀ block', Arrangement intents block' → block = block' ∨
    List.Lex (· < ·) (block.map Pending.rank) (block'.map Pending.rank)

/-- The merge loop over the queues of a domain ends with this block, on any number of takes
that is not below the number of intents. -/
def MergesTo (intents block : List Pending) : Prop :=
  ∀ fuel, intents.length ≤ fuel → mergeHeads fuel
    ((SortedMap.groupBy Pending.submitter intents).mapValues byNonce) = block.map Pending.id

variable {pending intents block : List Pending} {p p' : Pending}

/-! ### Arrangements -/

lemma byNonce_pairwise_lt {q : List Pending} (h : (q.map Pending.nonce).Nodup) :
    (byNonce q).Pairwise fun a b => a.nonce < b.nonce := by
  have hsorted : (byNonce q).Pairwise fun a b => a.nonce ≤ b.nonce :=
    List.pairwise_insertionSort _ q
  have hne : (byNonce q).Pairwise fun a b => a.nonce ≠ b.nonce := by
    rw [← List.pairwise_map (f := Pending.nonce) (R := (· ≠ ·))]
    exact (((List.perm_insertionSort _ q).map Pending.nonce).nodup_iff).mpr h
  exact (hsorted.and hne).imp fun hab => UInt64.lt_of_le_of_ne hab.1 hab.2

/-- A list with the nonce-ordered queues of some intents is an arrangement of them. -/
lemma arrangement_of_queue
    (hnonces : ∀ a, ((queue Pending.submitter a intents).map Pending.nonce).Nodup)
    (h : ∀ a, queue Pending.submitter a block = byNonce (queue Pending.submitter a intents)) :
    Arrangement intents block where
  perm := by
    have hqueue : ∀ a, (queue Pending.submitter a block).Perm (queue Pending.submitter a intents) :=
      fun a => h a ▸ List.perm_insertionSort _ _
    exact perm_of_queue hqueue
  nonces := by
    refine pairwise_of_queue fun a => ?_
    rw [h]
    exact byNonce_pairwise_lt (hnonces a)

lemma Arrangement.queue_eq (h : Arrangement intents block)
    (hnonces : ∀ a, ((queue Pending.submitter a intents).map Pending.nonce).Nodup) (a : Address) :
    queue Pending.submitter a block = byNonce (queue Pending.submitter a intents) := by
  have hsorted : (queue Pending.submitter a block).Pairwise fun p q => p.nonce < q.nonce := by
    refine (h.nonces.sublist List.filter_sublist).imp_of_mem fun hp hq hlt => hlt ?_
    exact (mem_queue.mp hp).2.trans (mem_queue.mp hq).2.symm
  rw [← byNonce_eq_self hsorted]
  exact (byNonce_eq_of_perm (h.perm.filter _).symm (hnonces a)).symm

/-- Intents with one rank are one intent, so the submitter never decides. -/
lemma greedy_rank (h : Greedy Pending.submitter (fun p => toLex (p.rank, p.submitter)) block)
    (hids : (block.map Pending.id).Nodup) : Greedy Pending.submitter Pending.rank block := by
  refine h.congr (fun p _ q _ => Iff.rfl) fun p hp q hq hlt => ?_
  rcases Prod.Lex.toLex_lt_toLex.mp hlt with hrank | ⟨hrank, haddr⟩
  · exact hrank
  · have hid : p.id = q.id := congrArg (fun r => (ofLex (ofLex r).2).2) hrank
    obtain rfl := List.inj_on_of_nodup_map hids hp hq hid
    exact absurd haddr (lt_irrefl _)

/-! ### The best one -/

lemma exists_leastArrangement (hids : (intents.map Pending.id).Nodup)
    (hnonces : ∀ a, ((queue Pending.submitter a intents).map Pending.nonce).Nodup) :
    ∃ block, LeastArrangement intents block ∧ MergesTo intents block := by
  obtain ⟨block, hout, hlanes, hgreedy⟩ := exists_mergeDomain intents
  have harr := arrangement_of_queue hnonces hlanes
  refine ⟨block, ⟨harr, fun block' h' => ?_⟩, hout⟩
  have hblock : (block.map Pending.id).Nodup :=
    ((harr.perm.map Pending.id).nodup_iff).mpr hids
  refine (greedy_rank hgreedy hblock).eq_or_lex fun a => ?_
  rw [h'.queue_eq hnonces, hlanes]

lemma queue_filter_market (m : Market) (a : Address) :
    queue Pending.submitter a (pending.filter fun p => p.market = m) =
      queue Pending.lane (m, a) pending := by
  rw [queue, queue, List.filter_filter]
  refine List.filter_congr fun p _ => ?_
  simp [Pending.lane, and_comm]

/-- **The merge implements the policy exactly.**  A slot is one block for each market that is
traded, in ascending market order.  A block holds exactly the intents of its market, in the
arrangement that is least by rank among all that keep every submitter in nonce order, so every
intent appears exactly once.  The merge loops end: one take for each intent is enough. -/
theorem merge_implements_policy (pending : List Pending) (hids : (pending.map Pending.id).Nodup)
    (hnonces : DistinctNonces pending) :
    ∃ (markets : List Market) (block : Market → List Pending),
      markets.Pairwise (· < ·) ∧
      (∀ m, m ∈ markets ↔ ∃ p ∈ pending, p.market = m) ∧
      orderSlot pending = (markets.flatMap block).map Pending.id ∧
      (∀ m, LeastArrangement (pending.filter fun p => p.market = m) (block m) ∧
        MergesTo (pending.filter fun p => p.market = m) (block m)) ∧
      (orderSlot pending).Perm (pending.map Pending.id) := by
  have hdomain : ∀ m, ∃ block, LeastArrangement (pending.filter fun p => p.market = m) block ∧
      MergesTo (pending.filter fun p => p.market = m) block := by
    intro m
    refine exists_leastArrangement (hids.sublist (List.filter_sublist.map Pending.id)) fun a => ?_
    rw [queue_filter_market]
    exact hnonces.nodup (m, a)
  choose block hleast hmerge using hdomain
  refine ⟨(SortedMap.groupBy Pending.market pending).entries.map Prod.fst, block,
    List.pairwise_map.mpr (SortedMap.groupBy Pending.market pending).sorted,
    fun m => SortedMap.mem_keys_groupBy, ?_, fun m => ⟨hleast m, hmerge m⟩,
    orderSlot_perm pending⟩
  rw [orderSlot, SortedMap.values, List.flatMap_map, List.flatMap_map, List.map_flatMap]
  refine List.flatMap_congr fun d hd => ?_
  rw [eq_queue_of_mem_groupBy hd]
  exact hmerge d.1 _ le_rfl

theorem merge_implements_policy_crowd :
    ∃ (markets : List Market) (block : Market → List Pending),
      markets.Pairwise (· < ·) ∧
      (∀ m, m ∈ markets ↔ ∃ p ∈ crowd, p.market = m) ∧
      orderSlot crowd = (markets.flatMap block).map Pending.id ∧
      (∀ m, LeastArrangement (crowd.filter fun p => p.market = m) (block m) ∧
        MergesTo (crowd.filter fun p => p.market = m) (block m)) ∧
      (orderSlot crowd).Perm (crowd.map Pending.id) :=
  merge_implements_policy crowd (by decide +kernel) (by decide +kernel)

/-! ### Raising a bid -/

lemma idxOf_map_id {l : List Pending} (h : ∀ q ∈ l, q.id = p.id → q = p) :
    (l.map Pending.id).idxOf p.id = l.idxOf p := by
  induction l with
  | nil => rfl
  | cons q l ih =>
    have htail := ih fun q' hq' => h q' (List.mem_cons_of_mem q hq')
    by_cases hq : q = p
    · subst hq
      rw [List.map_cons, List.idxOf_cons_self, List.idxOf_cons_self]
    · have hid : q.id ≠ p.id := fun hid => hq (h q List.mem_cons_self hid)
      rw [List.map_cons, List.idxOf_cons_ne _ hid, List.idxOf_cons_ne _ hq, htail]

lemma byNonce_queue_replace (hlane : p'.lane = p.lane) (hnonce : p'.nonce = p.nonce)
    (k : Market × Address) :
    byNonce (queue Pending.lane k (pending.map fun q => if q = p then p' else q)) =
      (byNonce (queue Pending.lane k pending)).map fun q => if q = p then p' else q := by
  have hsame : ∀ q : Pending, (if q = p then p' else q).lane = q.lane ∧
      (if q = p then p' else q).nonce = q.nonce := by
    intro q
    split_ifs with hq
    · exact ⟨hq ▸ hlane, hq ▸ hnonce⟩
    · exact ⟨rfl, rfl⟩
  have hqueue : queue Pending.lane k (pending.map fun q => if q = p then p' else q) =
      (queue Pending.lane k pending).map fun q => if q = p then p' else q := by
    rw [queue, List.filter_map, queue]
    simp only [Function.comp_def, (hsame _).1]
  rw [hqueue, byNonce, byNonce]
  refine (List.map_insertionSort _ _ _ _ fun a _ b _ => ?_).symm
  rw [(hsame a).2, (hsame b).2]

/-- **Raising a bid never costs a place.**  The intent is in the slot before and after; the id of
the raised one may be any that the others do not have. -/
theorem raising_a_bid_never_costs_a_place (pending : List Pending)
    (hids : (pending.map Pending.id).Nodup) (p : Pending) (hp : p ∈ pending)
    (id : IntentId) (priorityFee : UInt64) (hid : ∀ q ∈ pending, q ≠ p → q.id ≠ id)
    (hfee : p.priorityFee < priorityFee) :
    let raised := pending.map fun q =>
      if q = p then { p with id := id, priorityFee := priorityFee } else q
    id ∈ orderSlot raised ∧ p.id ∈ orderSlot pending ∧
      (orderSlot raised).idxOf id ≤ (orderSlot pending).idxOf p.id := by
  intro raised
  refine ⟨mem_orderSlot.mpr ⟨_, List.mem_map_of_mem hp, by rw [if_pos rfl]⟩,
    mem_orderSlot.mpr ⟨p, hp, rfl⟩, ?_⟩
  obtain ⟨p', hp'⟩ : ∃ p', p' = { p with id := id, priorityFee := priorityFee } := ⟨_, rfl⟩
  have hraised : raised = pending.map fun q => if q = p then p' else q := by rw [hp']
  rw [hraised]
  obtain ⟨out, hout, h⟩ := exists_orderSlot pending
  obtain ⟨out', hout', h'⟩ := exists_orderSlot (pending.map fun q => if q = p then p' else q)
  have hlane : p'.lane = p.lane := by rw [hp']; rfl
  have hprecedence : p'.precedence < p.precedence := by
    rw [Pending.precedence, Pending.precedence, Prod.Lex.toLex_lt_toLex]
    refine Or.inr ⟨by rw [hp'], Prod.Lex.toLex_lt_toLex.mpr (Or.inl ?_)⟩
    rw [Pending.rank, Pending.rank, Prod.Lex.toLex_lt_toLex, hp']
    exact Or.inl (OrderDual.toDual_lt_toDual.mpr (UInt64.lt_iff_toNat_lt.mp hfee))
  have hplace : out'.idxOf p' ≤ out.idxOf p := by
    refine h.greedy.idxOf_le h'.greedy hlane hprecedence fun k => ?_
    rw [h'.lanes, h.lanes, byNonce_queue_replace hlane (by rw [hp'])]
  have hpid : (out.map Pending.id).idxOf p.id = out.idxOf p :=
    idxOf_map_id fun q hq heq => List.inj_on_of_nodup_map hids (h.mem_iff.mp hq) hp heq
  have hpid' : (out'.map Pending.id).idxOf p'.id = out'.idxOf p' := by
    refine idxOf_map_id fun q hq heq => ?_
    obtain ⟨r, hr, hrq⟩ := List.mem_map.mp (h'.mem_iff.mp hq)
    by_cases hrp : r = p
    · rw [← hrq, if_pos hrp]
    · -- the others do not have the new id
      rw [if_neg hrp] at hrq
      rw [← hrq, hp'] at heq
      exact absurd heq (hid r hr hrp)
  have hid' : id = p'.id := by rw [hp']
  rw [hout, hout', hpid, hid', hpid']
  exact hplace

/-- The late nonce of the first submitter is raised above all others. -/
theorem raising_a_bid_never_costs_a_place_crowd :
    let raised := crowd.map fun q =>
      if q = crowd[0] then { crowd[0] with id := ⟨Bytes.ofNat 32 9⟩, priorityFee := 91 } else q
    ⟨Bytes.ofNat 32 9⟩ ∈ orderSlot raised ∧ crowd[0].id ∈ orderSlot crowd ∧
      (orderSlot raised).idxOf ⟨Bytes.ofNat 32 9⟩ ≤ (orderSlot crowd).idxOf crowd[0].id :=
  raising_a_bid_never_costs_a_place crowd (by decide +kernel) crowd[0] (by decide +kernel) _ _
    (by decide +kernel) (by decide +kernel)

end Zequencer
