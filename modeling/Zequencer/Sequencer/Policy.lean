/-
# What the ordering policy computes

The domains of a slot are one greedy merge: intents wait in one lane for each submitter in
each market, in nonce order, and the head that wins is the one of the least market, then of
the best rank.  So a slot is determined by its lanes: the order of arrival has no say in it,
and leaving out lanes leaves the others in the order they had.
-/
import Zequencer.Lib.Merge
import Zequencer.Sequencer.Order

namespace Zequencer

open Merge

/-- The lane an intent waits in. -/
def Pending.lane (p : Pending) : Market × Address := (p.market, p.submitter)

/-- What decides between the heads of two lanes.  Lower comes first. -/
def Pending.precedence (p : Pending) : Market ×ₗ (ℕᵒᵈ ×ₗ ℕ ×ₗ IntentId) ×ₗ Address :=
  toLex (p.market, toLex (p.rank, p.submitter))

/-- A queue in nonce order. -/
def byNonce (q : List Pending) : List Pending := q.insertionSort fun a b => a.nonce ≤ b.nonce

lemma mem_byNonce {p : Pending} {q : List Pending} : p ∈ byNonce q ↔ p ∈ q :=
  List.mem_insertionSort _

lemma byNonce_eq_self {q : List Pending} (h : q.Pairwise fun a b => a.nonce < b.nonce) :
    byNonce q = q :=
  List.Pairwise.insertionSort_eq (h.imp fun hlt => UInt64.le_of_lt hlt)

/-- `out` is the buffer as the policy orders it. -/
structure Ordered (pending out : List Pending) : Prop where
  /-- Every lane is in nonce order. -/
  lanes : ∀ k, queue Pending.lane k out = byNonce (queue Pending.lane k pending)
  /-- Whichever head wins comes first. -/
  greedy : Greedy Pending.lane Pending.precedence out

variable {pending pending' out out' : List Pending}

lemma bucket_groupBy_eq_queue {K : Type*} [LinearOrder K] [DecidableEq K] (key : Pending → K)
    (k : K) (l : List Pending) : (SortedMap.groupBy key l).bucket k = queue key k l := by
  rw [SortedMap.bucket_groupBy, queue]
  exact List.filter_congr fun p _ => by simp

/-! ### One domain -/

lemma winningHead_le {queues : SortedMap Address (List Pending)}
    {next : (ℕᵒᵈ ×ₗ ℕ ×ₗ IntentId) ×ₗ Address} (h : winningHead queues = some next)
    {a : Address} {p : Pending} (hp : (queues.bucket a).head? = some p) :
    next ≤ toLex (p.rank, a) := by
  refine (List.min?_eq_some_iff.mp h).2 _ (List.mem_filterMap.mpr ?_)
  cases hq : queues.find? a with
  | none => simp [SortedMap.bucket, hq] at hp
  | some q =>
    rw [SortedMap.bucket, hq, Option.getD_some] at hp
    exact ⟨(a, q), SortedMap.mem_of_find? hq, by rw [hp, Option.map_some]⟩

lemma exists_mergeHeads (fuel : ℕ) (queues : SortedMap Address (List Pending))
    (hfuel : queues.elems.length ≤ fuel)
    (hqueues : ∀ a, ∀ p ∈ queues.bucket a, p.submitter = a) :
    ∃ out : List Pending, mergeHeads fuel queues = out.map Pending.id ∧
      (∀ a, queue Pending.submitter a out = queues.bucket a) ∧
        Greedy Pending.submitter (fun p => toLex (p.rank, p.submitter)) out := by
  have hempty : queues.elems = [] → ∀ a, queue Pending.submitter a [] = queues.bucket a :=
    fun hnil a => (SortedMap.bucket_eq_nil hnil a).symm
  induction fuel generalizing queues with
  | zero =>
    have hnil : queues.elems = [] := List.eq_nil_of_length_eq_zero (by omega)
    exact ⟨[], rfl, hempty hnil, trivial⟩
  | succ fuel ih =>
    rw [mergeHeads]
    cases hw : winningHead queues with
    | none => exact ⟨[], rfl, hempty (elems_of_winningHead_eq_none hw), trivial⟩
    | some next =>
      obtain ⟨p, rest, hfind, hnext⟩ := mem_winningHead hw
      have hpop := (SortedMap.elems_pop_perm hfind).length_eq
      rw [List.length_cons] at hpop
      simp only [hfind]
      generalize (ofLex next).2 = addr at hfind hnext hpop ⊢
      have hbucket : queues.bucket addr = p :: rest := by
        rw [SortedMap.bucket, hfind, Option.getD_some]
      obtain rfl : p.submitter = addr := hqueues addr p (by rw [hbucket]; exact List.mem_cons_self)
      have hqueues' : ∀ a, ∀ p' ∈ (if rest.isEmpty then queues.erase p.submitter
          else queues.upsert p.submitter fun _ => rest).bucket a, p'.submitter = a := by
        intro a p' hp'
        rw [SortedMap.bucket_pop] at hp'
        split_ifs at hp' with ha
        · exact hqueues a p' (by rw [ha, hbucket]; exact List.mem_cons_of_mem p hp')
        · exact hqueues a p' hp'
      obtain ⟨out, hout, hlanes, hgreedy⟩ := ih _ (by omega) hqueues'
        fun hnil a => (SortedMap.bucket_eq_nil hnil a).symm
      refine ⟨p :: out, by rw [hout, List.map_cons], fun a => ?_, fun a ha p' hp' => ?_, hgreedy⟩
      · by_cases ha : p.submitter = a
        · subst ha
          rw [queue_cons_of_eq rfl, hlanes, SortedMap.bucket_pop, if_pos rfl, hbucket]
        · rw [queue_cons_of_ne ha, hlanes, SortedMap.bucket_pop, if_neg (Ne.symm ha)]
      · rw [hlanes, SortedMap.bucket_pop, if_neg ha] at hp'
        have hsub : p'.submitter = a := hqueues a p' (List.mem_of_mem_head? hp')
        subst hsub
        -- the winner is not above the head of another queue, and not the same
        have hle := winningHead_le hw hp'
        rw [hnext] at hle
        refine lt_of_le_of_ne hle fun heq => ha ?_
        exact (congrArg (fun x => (ofLex x).2) heq).symm

/-- A domain is merged greedily from its nonce-ordered queues, and more fuel than there are
intents changes nothing. -/
lemma exists_mergeDomain (intents : List Pending) :
    ∃ out : List Pending,
      (∀ fuel, intents.length ≤ fuel → mergeHeads fuel
        ((SortedMap.groupBy Pending.submitter intents).mapValues byNonce) = out.map Pending.id) ∧
      (∀ a, queue Pending.submitter a out = byNonce (queue Pending.submitter a intents)) ∧
        Greedy Pending.submitter (fun p => toLex (p.rank, p.submitter)) out := by
  have hbucket : ∀ a, ((SortedMap.groupBy Pending.submitter intents).mapValues byNonce).bucket a =
      byNonce (queue Pending.submitter a intents) := by
    intro a
    rw [SortedMap.bucket_mapValues _ rfl, bucket_groupBy_eq_queue]
  have hqueues : ∀ a, ∀ p ∈
      ((SortedMap.groupBy Pending.submitter intents).mapValues byNonce).bucket a,
        p.submitter = a := by
    intro a p hp
    rw [hbucket, mem_byNonce] at hp
    exact (mem_queue.mp hp).2
  have hperm := (SortedMap.elems_mapValues_perm (SortedMap.groupBy Pending.submitter intents)
    (f := byNonce) fun q => List.perm_insertionSort _ q).trans
      (SortedMap.elems_groupBy_perm Pending.submitter intents)
  have hmerge := fun fuel (hfuel : intents.length ≤ fuel) => exists_mergeHeads fuel
    ((SortedMap.groupBy Pending.submitter intents).mapValues byNonce)
    (hperm.length_eq.le.trans hfuel) hqueues
  obtain ⟨out, -, hlanes, hgreedy⟩ := hmerge intents.length le_rfl
  refine ⟨out, fun fuel hfuel => ?_, fun a => (hlanes a).trans (hbucket a), hgreedy⟩
  obtain ⟨out', hout', hlanes', hgreedy'⟩ := hmerge fuel hfuel
  rw [hout', hgreedy'.eq_of_queue hgreedy fun a => (hlanes' a).trans (hlanes a).symm]

lemma exists_orderDomain (intents : List Pending) :
    ∃ out : List Pending, orderDomain intents = out.map Pending.id ∧
      (∀ a, queue Pending.submitter a out = byNonce (queue Pending.submitter a intents)) ∧
        Greedy Pending.submitter (fun p => toLex (p.rank, p.submitter)) out := by
  obtain ⟨out, hout, h⟩ := exists_mergeDomain intents
  exact ⟨out, hout intents.length le_rfl, h⟩

/-! ### All domains -/

/-- Domains in market order are one greedy merge. -/
lemma exists_flatMap_orderDomain (domains : List (Market × List Pending))
    (hsorted : domains.Pairwise fun d d' => d.1 < d'.1)
    (hmarket : ∀ d ∈ domains, ∀ p ∈ d.2, p.market = d.1) :
    ∃ out : List Pending, (domains.map Prod.snd).flatMap orderDomain = out.map Pending.id ∧
      (∀ d ∈ domains, ∀ a, queue Pending.lane (d.1, a) out =
        byNonce (queue Pending.submitter a d.2)) ∧
      (∀ p ∈ out, ∃ d ∈ domains, p ∈ d.2) ∧ Greedy Pending.lane Pending.precedence out := by
  induction domains with
  | nil => exact ⟨[], rfl, by simp, by simp, trivial⟩
  | cons d domains ih =>
    obtain ⟨hhead, htail⟩ := List.pairwise_cons.mp hsorted
    obtain ⟨out, hout, hlanes, hmem, hgreedy⟩ :=
      ih htail fun d' hd' => hmarket d' (List.mem_cons_of_mem d hd')
    obtain ⟨block, hblock, hqueues, hmerged⟩ := exists_orderDomain d.2
    have hblockmem : ∀ p ∈ block, p ∈ d.2 := by
      intro p hp
      have hq : p ∈ queue Pending.submitter p.submitter block := mem_queue.mpr ⟨hp, rfl⟩
      rw [hqueues, mem_byNonce] at hq
      exact (mem_queue.mp hq).1
    have hin : ∀ p ∈ block, p.market = d.1 := fun p hp =>
      hmarket d List.mem_cons_self p (hblockmem p hp)
    have hbelow : ∀ p ∈ out, d.1 < p.market := by
      intro p hp
      obtain ⟨d', hd', hpd'⟩ := hmem p hp
      rw [hmarket d' (List.mem_cons_of_mem d hd') p hpd']
      exact hhead d' hd'
    refine ⟨block ++ out, ?_, ?_, ?_, ?_⟩
    · rw [List.map_cons, List.flatMap_cons, hblock, hout, List.map_append]
    · intro d' hd' a
      rw [queue_append]
      rcases List.mem_cons.mp hd' with rfl | hd'
      · have hnone : queue Pending.lane (d'.1, a) out = [] :=
          queue_eq_nil_of_forall fun p hp heq => (hbelow p hp).ne' (congrArg Prod.fst heq)
        have hsame : queue Pending.lane (d'.1, a) block = queue Pending.submitter a block :=
          queue_congr fun p hp => by simp [Pending.lane, hin p hp]
        rw [hnone, List.append_nil, hsame, hqueues]
      · have hnone : queue Pending.lane (d'.1, a) block = [] := by
          refine queue_eq_nil_of_forall fun p hp heq => (hhead d' hd').ne ?_
          rw [← hin p hp]
          exact congrArg Prod.fst heq
        rw [hnone, List.nil_append, hlanes d' hd']
    · intro p hp
      rcases List.mem_append.mp hp with hp | hp
      · exact ⟨d, List.mem_cons_self, hblockmem p hp⟩
      · obtain ⟨d', hd', hpd'⟩ := hmem p hp
        exact ⟨d', List.mem_cons_of_mem d hd', hpd'⟩
    · refine Greedy.append (hmerged.congr ?_ ?_) hgreedy ?_
      · intro p hp p' hp'
        simp [Pending.lane, hin p hp, hin p' hp']
      · intro p hp p' hp' hlt
        rw [Pending.precedence, Pending.precedence, Prod.Lex.toLex_lt_toLex]
        exact Or.inr ⟨(hin p hp).trans (hin p' hp').symm, hlt⟩
      · intro p hp p' hp'
        rw [Pending.precedence, Pending.precedence, Prod.Lex.toLex_lt_toLex]
        exact Or.inl (hin p hp ▸ hbelow p' hp')

lemma eq_queue_of_mem_groupBy {pending : List Pending} {d : Market × List Pending}
    (hd : d ∈ (SortedMap.groupBy Pending.market pending).entries) :
    d.2 = queue Pending.market d.1 pending := by
  have hfind := SortedMap.find?_of_mem (m := SortedMap.groupBy Pending.market pending)
    (k := d.1) (v := d.2) hd
  rw [← bucket_groupBy_eq_queue, SortedMap.bucket, hfind, Option.getD_some]

/-- **The policy.**  A slot is the greedy merge of the lanes of its buffer. -/
theorem exists_orderSlot (pending : List Pending) :
    ∃ out : List Pending, orderSlot pending = out.map Pending.id ∧ Ordered pending out := by
  have hbucket : ∀ d ∈ (SortedMap.groupBy Pending.market pending).entries,
      d.2 = queue Pending.market d.1 pending := fun d hd => eq_queue_of_mem_groupBy hd
  have hmarket : ∀ d ∈ (SortedMap.groupBy Pending.market pending).entries, ∀ p ∈ d.2,
      p.market = d.1 := by
    intro d hd p hp
    rw [hbucket d hd] at hp
    exact (mem_queue.mp hp).2
  obtain ⟨out, hout, hlanes, hmem, hgreedy⟩ := exists_flatMap_orderDomain
    (SortedMap.groupBy Pending.market pending).entries
    (SortedMap.groupBy Pending.market pending).sorted hmarket
  refine ⟨out, hout, fun k => ?_, hgreedy⟩
  obtain ⟨m, a⟩ := k
  have hlane : queue Pending.lane (m, a) pending =
      queue Pending.submitter a (queue Pending.market m pending) := by
    rw [queue, queue, queue, List.filter_filter]
    refine List.filter_congr fun p _ => ?_
    simp [Pending.lane, and_comm]
  rw [hlane]
  cases hfind : (SortedMap.groupBy Pending.market pending).find? m with
  | none =>
    -- nobody trades this market
    have hnil : queue Pending.market m pending = [] := by
      rw [← bucket_groupBy_eq_queue, SortedMap.bucket, hfind]
      rfl
    rw [hnil]
    refine queue_eq_nil_of_forall fun p hp heq => ?_
    obtain ⟨d, hd, hpd⟩ := hmem p hp
    have hpm : p ∈ queue Pending.market m pending := by
      rw [hbucket d hd, mem_queue] at hpd
      exact mem_queue.mpr ⟨hpd.1, congrArg Prod.fst heq⟩
    rw [hnil] at hpm
    exact List.not_mem_nil hpm
  | some b =>
    have he := SortedMap.mem_of_find? hfind
    rw [hlanes _ he, hbucket _ he]

/-! ### What decides a slot -/

/-- The lanes decide. -/
lemma Ordered.eq_of_lanes (h : Ordered pending out) (h' : Ordered pending' out')
    (hlanes : ∀ k, byNonce (queue Pending.lane k pending) =
      byNonce (queue Pending.lane k pending')) : out = out' := by
  refine h.greedy.eq_of_queue h'.greedy fun k => ?_
  rw [h.lanes, h'.lanes, hlanes]

lemma Ordered.mem_iff (h : Ordered pending out) {p : Pending} : p ∈ out ↔ p ∈ pending := by
  have hlane : ∀ {l : List Pending}, p ∈ l ↔ p ∈ queue Pending.lane p.lane l := by
    intro l
    rw [mem_queue, and_iff_left rfl]
  rw [hlane, h.lanes, mem_byNonce, ← hlane]

lemma Ordered.filter (h : Ordered pending out) (s : Market × Address → Prop) [DecidablePred s] :
    Ordered (pending.filter fun p => s p.lane) (out.filter fun p => s p.lane) where
  greedy := h.greedy.filter s
  lanes := by
    intro k
    by_cases hk : s k
    · rw [queue_filter s hk, queue_filter s hk, h.lanes]
    · have hnone : ∀ l : List Pending,
          queue Pending.lane k (l.filter fun p => s p.lane) = [] := by
        refine fun l => queue_eq_nil_of_forall fun p hp heq => hk ?_
        exact heq ▸ of_decide_eq_true (List.mem_filter.mp hp).2
      rw [hnone, hnone]
      rfl

/-- Intents of one submitter in one market have distinct nonces. -/
def DistinctNonces (pending : List Pending) : Prop :=
  pending.Pairwise fun p q => p.lane = q.lane → p.nonce ≠ q.nonce

instance : DecidablePred DistinctNonces := fun pending =>
  inferInstanceAs (Decidable (pending.Pairwise fun p q => p.lane = q.lane → p.nonce ≠ q.nonce))

lemma DistinctNonces.nodup (h : DistinctNonces pending) (k : Market × Address) :
    ((queue Pending.lane k pending).map Pending.nonce).Nodup := by
  have hlane : (queue Pending.lane k pending).Pairwise
      fun p q => p.lane = q.lane → p.nonce ≠ q.nonce := h.sublist List.filter_sublist
  rw [List.Nodup, List.pairwise_map]
  refine hlane.imp_of_mem fun hp hq hne => hne ?_
  exact (mem_queue.mp hp).2.trans (mem_queue.mp hq).2.symm

lemma byNonce_eq_of_perm {q q' : List Pending} (h : q.Perm q') (hq : (q.map Pending.nonce).Nodup) :
    byNonce q = byNonce q' := by
  have hsorted : ∀ q : List Pending, (byNonce q).Pairwise fun a b => a.nonce ≤ b.nonce :=
    fun q => List.pairwise_insertionSort _ q
  have hperm : (byNonce q).Perm (byNonce q') :=
    (List.perm_insertionSort _ q).trans (h.trans (List.perm_insertionSort _ q').symm)
  refine hperm.eq_of_pairwise ?_ (hsorted q) (hsorted q')
  intro a b ha hb hab hba
  exact List.inj_on_of_nodup_map hq (mem_byNonce.mp ha) (h.mem_iff.mpr (mem_byNonce.mp hb))
    (UInt64.le_antisymm hab hba)

/-- **Arrival order has no say in the slot.**  Buffers that are rearrangements of each
other, with distinct nonces for each submitter in each market, give the same slot, and the
same commitment under every number. -/
theorem arrival_order_has_no_say [Keccak256] (pending pending' : List Pending)
    (hperm : pending.Perm pending') (hnonces : DistinctNonces pending) :
    orderSlot pending = orderSlot pending' ∧
      ∀ slot, commit slot (orderSlot pending) = commit slot (orderSlot pending') := by
  obtain ⟨out, hout, h⟩ := exists_orderSlot pending
  obtain ⟨out', hout', h'⟩ := exists_orderSlot pending'
  have heq : out = out' := h.eq_of_lanes h' fun k =>
    byNonce_eq_of_perm (hperm.filter _) (hnonces.nodup k)
  have horder : orderSlot pending = orderSlot pending' := by
    rw [hout, hout', heq]
  exact ⟨horder, fun slot => by rw [horder]⟩

/-- Two submitters in one market, and one of them in another. -/
def crowd : List Pending :=
  [⟨⟨Bytes.ofNat 32 1⟩, ⟨"ETH", "USDC"⟩, ⟨Bytes.ofNat 20 1⟩, 1, 90, testNow⟩,
    ⟨⟨Bytes.ofNat 32 2⟩, ⟨"ETH", "USDC"⟩, ⟨Bytes.ofNat 20 1⟩, 0, 10, testNow + 1⟩,
    ⟨⟨Bytes.ofNat 32 3⟩, ⟨"BTC", "USDC"⟩, ⟨Bytes.ofNat 20 2⟩, 0, 50, testNow⟩,
    ⟨⟨Bytes.ofNat 32 4⟩, ⟨"ETH", "USDC"⟩, ⟨Bytes.ofNat 20 2⟩, 0, 50, testNow + 2⟩]

theorem arrival_order_has_no_say_crowd :
    orderSlot crowd = orderSlot crowd.reverse ∧
      ∀ slot, @commit fixtureKeccak slot (orderSlot crowd) =
        @commit fixtureKeccak slot (orderSlot crowd.reverse) :=
  @arrival_order_has_no_say fixtureKeccak crowd crowd.reverse (List.reverse_perm crowd).symm
    (by decide +kernel)

/-- **Competitors displace but never reorder.**  Leaving out of a slot the intents of any
submitters, or in any markets, leaves the slot of the buffer without them. -/
theorem competitors_never_reorder (pending : List Pending)
    (hids : (pending.map Pending.id).Nodup) (S : Set Address) (M : Set Market)
    [DecidablePred (· ∈ S)] [DecidablePred (· ∈ M)] :
    (orderSlot pending).filter
        (fun id => ∃ p ∈ pending, p.id = id ∧ p.submitter ∈ S ∧ p.market ∈ M) =
      orderSlot (pending.filter fun p => p.submitter ∈ S ∧ p.market ∈ M) := by
  obtain ⟨out, hout, h⟩ := exists_orderSlot pending
  obtain ⟨out', hout', h'⟩ :=
    exists_orderSlot (pending.filter fun p => p.submitter ∈ S ∧ p.market ∈ M)
  have heq : out.filter (fun p => p.submitter ∈ S ∧ p.market ∈ M) = out' :=
    (h.filter fun k => k.2 ∈ S ∧ k.1 ∈ M).eq_of_lanes h' fun k => rfl
  rw [hout, hout', ← heq, List.filter_map]
  refine congrArg (List.map Pending.id) (List.filter_congr fun p hp => ?_)
  have hmem := h.mem_iff.mp hp
  -- an id stands for one intent of the buffer
  have hiff : (∃ q ∈ pending, q.id = p.id ∧ q.submitter ∈ S ∧ q.market ∈ M) ↔
      p.submitter ∈ S ∧ p.market ∈ M := by
    constructor
    · rintro ⟨q, hq, hid, hin⟩
      obtain rfl := List.inj_on_of_nodup_map hids hq hmem hid
      exact hin
    · exact fun hin => ⟨p, hmem, rfl, hin⟩
  simp only [Function.comp_apply, hiff]

theorem competitors_never_reorder_crowd :
    (orderSlot crowd).filter (fun id => ∃ p ∈ crowd, p.id = id ∧
        p.submitter ∈ ({⟨Bytes.ofNat 20 1⟩} : Set Address) ∧ p.market ∈ (Set.univ : Set Market)) =
      orderSlot (crowd.filter fun p =>
        p.submitter ∈ ({⟨Bytes.ofNat 20 1⟩} : Set Address) ∧ p.market ∈ (Set.univ : Set Market)) :=
  competitors_never_reorder crowd (by decide +kernel) _ _

end Zequencer
