import PackedGraph.Proofs.Session.Steps

/-!
# What counters stand at

After any sequence of allowed calls, a counter stands at the bytes of the blocks that were built on
its account and are still held. This follows from the balance of the session: every call preserves
it, and nothing is held that was not built.
-/

namespace PackedGraph

namespace Session

variable {session : Session}

/-- Every call is allowed in the session that it is made in. -/
def AllowsAll (session : Session) : List SessionCall → Prop
  | [] => True
  | call :: calls => session.Allows call ∧ (session.perform call).2.AllowsAll calls

/-- The blocks that calls put into memory on behalf of an account. -/
def builtWith (session : Session) (account : Account) : List SessionCall → List Block
  | [] => []
  | call :: calls =>
    (if session.builder.account = account then session.built call else []) ++
      (session.perform call).2.builtWith account calls

/-- Somebody holds a block: a view, a triangle finder, or the block table of a store or of a view,
as long as the block has not been released from its place in the table. -/
def Holds (session : Session) (block : Block) : Prop :=
  (∃ entry ∈ session.views, entry.2.base.topologyBlock = some block ∨
      entry.2.base.valuesBlock = some block) ∨
    (∃ entry ∈ session.finders, .topology entry.2.topology = block) ∨
    ∃ (number : Nat) (table : BlockTable), session.memory.tables[number]? = some table ∧
      block ∈ table.blocks ∧
      ((∃ entry ∈ session.stores, entry.2.blockTable = number) ∨
        ∃ entry ∈ session.views, entry.2.base.blockTable = number)

/-! ## A single call -/

namespace Balanced

/-- Every call that is allowed leads to a balanced session. -/
theorem exists_leads (h : session.Balanced []) {call : SessionCall}
    (hallowed : session.Allows call) : ∃ outcome after, session.Leads call outcome after := by
  cases call with
  | setAccount isCounting =>
    obtain ⟨_, _, hleads⟩ := h.leads_setAccount isCounting
    exact ⟨_, _, hleads⟩
  | builder call =>
    obtain ⟨_, hleads⟩ := h.leads_builder hallowed
    exact ⟨_, _, hleads⟩
  | build name =>
    cases hgraph : session.builder.compress with
    | error error => exact ⟨_, _, h.leads_build_of_error name hgraph⟩
    | ok graph =>
      obtain ⟨_, _, _, _, _, hleads, _⟩ := h.leads_build hallowed hgraph
      exact ⟨_, _, hleads⟩
  | openView name key as =>
    obtain ⟨_, hleads⟩ | ⟨_, _, _, _, _, _, _, hleads, _⟩ := h.leads_openView name key as
    · exact ⟨_, _, hleads⟩
    · exact ⟨_, _, hleads⟩
  | copy name as =>
    obtain hleads | ⟨_, _, _, hleads, _⟩ := h.leads_copy name as
    · exact ⟨_, _, hleads⟩
    · exact ⟨_, _, hleads⟩
  | filter name labels as =>
    obtain ⟨_, hleads⟩ | ⟨_, _, _, ⟨_, _, hleads, _⟩ | ⟨_, _, hleads, _⟩⟩ :=
      h.leads_filter name labels as
    · exact ⟨_, _, hleads⟩
    · exact ⟨_, _, hleads⟩
    · exact ⟨_, _, hleads⟩
  | unfilter name as =>
    obtain hleads | ⟨_, _, _, hleads, _⟩ := h.leads_unfilter name as
    · exact ⟨_, _, hleads⟩
    · exact ⟨_, _, hleads⟩
  | setCanRelease name canRelease =>
    obtain hleads | ⟨_, _, hleads⟩ := h.leads_setCanRelease name canRelease
    · exact ⟨_, _, hleads⟩
    · exact ⟨_, _, hleads⟩
  | releaseTopology name =>
    obtain hleads | ⟨_, _, _, hleads⟩ := h.leads_releaseTopology name
    · exact ⟨_, _, hleads⟩
    · exact ⟨_, _, hleads⟩
  | releaseValues name =>
    obtain hleads | ⟨_, _, _, hleads⟩ := h.leads_releaseValues name
    · exact ⟨_, _, hleads⟩
    · exact ⟨_, _, hleads⟩
  | read name question hfresh =>
    obtain hleads | ⟨_, _, hleads⟩ := h.leads_read name hfresh
    · exact ⟨_, _, hleads⟩
    · exact ⟨_, _, hleads⟩
  | findTriangles name maxDegree as =>
    obtain ⟨_, hleads⟩ | ⟨_, _, _, _, _, hleads, _⟩ := h.leads_findTriangles name maxDegree as
    · exact ⟨_, _, hleads⟩
    · exact ⟨_, _, hleads⟩
  | trianglesOf name node =>
    obtain hleads | ⟨_, _, hleads⟩ := h.leads_trianglesOf name node
    · exact ⟨_, _, hleads⟩
    · exact ⟨_, _, hleads⟩
  | drop name =>
    obtain ⟨_, hleads, _⟩ := h.leads_drop name
    exact ⟨_, _, hleads⟩

/-- A call leads to the session that it leaves. -/
theorem leads (h : session.Balanced []) {call : SessionCall} (hallowed : session.Allows call) :
    session.Leads call (session.perform call).1 (session.perform call).2 := by
  obtain ⟨outcome, after, hleads⟩ := h.exists_leads hallowed
  rw [hleads.perform_eq]
  exact hleads

/-- What a call builds is charged to the account of the builder. -/
theorem charges_built (h : session.Balanced []) {call : SessionCall}
    (hallowed : session.Allows call) {block : Block} (hblock : block ∈ session.built call) :
    (session.perform call).2.memory.ledger.Charges session.builder.account block := by
  cases call with
  | build name =>
    cases hgraph : session.builder.compress with
    | error error =>
      unfold built at hblock
      rw [(h.leads_build_of_error name hgraph).perform_eq] at hblock
      exact absurd hblock List.not_mem_nil
    | ok graph =>
      obtain ⟨_, _, _, _, _, hleads, _, hcharges⟩ := h.leads_build hallowed hgraph
      rw [hleads.perform_eq]
      exact hcharges block hblock
  | _ => exact absurd hblock List.not_mem_nil

end Balanced

/-! ## A sequence of calls -/

theorem performAll_cons (session : Session) (call : SessionCall) (calls : List SessionCall) :
    session.performAll (call :: calls) = (session.perform call).2.performAll calls := rfl

theorem allowsAll_append {first second : List SessionCall} :
    session.AllowsAll (first ++ second) ↔
      session.AllowsAll first ∧ (session.performAll first).AllowsAll second := by
  induction first generalizing session with
  | nil => exact (true_and _).to_iff.symm
  | cons call first ih => exact (and_congr_right fun _ ↦ ih).trans and_assoc.symm

/-- After some calls, the session is balanced, what is held was held before or has been built, and
what has been built is charged to the account it was built with. -/
theorem Balanced.performAll (h : session.Balanced []) {calls : List SessionCall}
    (hallowed : session.AllowsAll calls) :
    (session.performAll calls).Balanced [] ∧
      (session.performAll calls).memory.ledger.Extends session.memory.ledger ∧
      (∀ block ∈ (session.performAll calls).held,
        block ∈ session.held ∨ ∃ account, block ∈ session.builtWith account calls) ∧
      ∀ (account : Account) (block : Block), block ∈ session.builtWith account calls →
        (session.performAll calls).memory.ledger.Charges account block := by
  induction calls generalizing session with
  | nil =>
    exact ⟨h, .refl _, fun _ hblock ↦ .inl hblock,
      fun _ _ hblock ↦ absurd hblock List.not_mem_nil⟩
  | cons call calls ih =>
    obtain ⟨hcall, hcalls⟩ := hallowed
    have hleads := h.leads hcall
    obtain ⟨hbalanced, hextends, hheld, hcharges⟩ := ih hleads.balanced hcalls
    rw [performAll_cons]
    refine ⟨hbalanced, hextends.trans hleads.ledger, fun block hblock ↦ ?_,
      fun account block hblock ↦ ?_⟩
    · rcases hheld block hblock with hblock | ⟨account, hblock⟩
      · rcases List.mem_append.mp (hleads.held hblock) with hblock | hblock
        · exact .inl hblock
        · refine .inr ⟨session.builder.account, List.mem_append_left _ ?_⟩
          rw [if_pos rfl]
          exact hblock
      · exact .inr ⟨account, List.mem_append_right _ hblock⟩
    · rcases List.mem_append.mp hblock with hblock | hblock
      · split_ifs at hblock with haccount
        · rw [← haccount]
          exact hextends.charges (h.charges_built hcall hblock)
        · exact absurd hblock List.not_mem_nil
      · exact hcharges account block hblock

theorem mem_owners_iff {owner : Owner} :
    owner ∈ session.owners ↔ (∃ entry ∈ session.stores, entry.2.owner = owner) ∨
      (∃ entry ∈ session.views, entry.2.owner = owner) ∨
        ∃ entry ∈ session.finders, entry.2.owner = owner := by
  simp only [owners, Named.owners, List.mem_append, List.mem_map]

/-- What is held is what somebody holds: a block table without owners is empty. -/
theorem Balanced.mem_held_iff (h : session.Balanced []) {block : Block} :
    block ∈ session.held ↔ session.Holds block := by
  unfold held
  rw [List.mem_append, List.mem_flatMap, Memory.mem_slots_iff]
  constructor
  · rintro (⟨owner, howner, hblock⟩ | ⟨number, table, htable, hblock⟩)
    · rcases mem_owners_iff.mp howner with ⟨entry, hentry, rfl⟩ | ⟨entry, hentry, rfl⟩ |
        ⟨entry, hentry, rfl⟩
      · exact absurd hblock List.not_mem_nil
      · rcases List.mem_append.mp hblock with hblock | hblock
        · exact .inl ⟨entry, hentry, .inl (Option.mem_toList.mp hblock)⟩
        · exact .inl ⟨entry, hentry, .inr (Option.mem_toList.mp hblock)⟩
      · exact .inr (.inl ⟨entry, hentry, (List.mem_singleton.mp hblock).symm⟩)
    · refine .inr (.inr ⟨number, table, htable, hblock, ?_⟩)
      have hholders : table.holders ≠ 0 := by
        intro hzero
        rw [h.serves.shares.blocks_eq_nil number table htable hzero] at hblock
        exact List.not_mem_nil hblock
      rw [h.serves.shares.holders_eq number table htable, ← Nat.pos_iff_ne_zero,
        List.count_pos_iff] at hholders
      obtain ⟨owner, howner, hnumber⟩ := List.mem_flatMap.mp hholders
      rcases mem_owners_iff.mp howner with ⟨entry, hentry, rfl⟩ | ⟨entry, hentry, rfl⟩ |
        ⟨entry, hentry, rfl⟩
      · exact .inl ⟨entry, hentry, (List.mem_singleton.mp hnumber).symm⟩
      · exact .inr ⟨entry, hentry, (List.mem_singleton.mp hnumber).symm⟩
      · exact absurd hnumber List.not_mem_nil
  · rintro (⟨entry, hentry, hblock⟩ | ⟨entry, hentry, rfl⟩ | ⟨number, table, htable, hblock, _⟩)
    · refine .inl ⟨_, mem_owners_iff.mpr (.inr (.inl ⟨entry, hentry, rfl⟩)), ?_⟩
      apply List.mem_append.mpr
      exact hblock.imp Option.mem_toList.mpr Option.mem_toList.mpr
    · exact .inl ⟨_, mem_owners_iff.mpr (.inr (.inr ⟨entry, hentry, rfl⟩)),
        List.mem_singleton_self _⟩
    · exact .inr ⟨number, table, htable, hblock⟩

/-- After some calls, a held block is charged to an account exactly if it was built with it. -/
theorem charges_iff_mem_builtWith {calls : List SessionCall}
    (hallowed : Session.empty.AllowsAll calls) {account : Account} {block : Block}
    (hheld : block ∈ (Session.empty.performAll calls).held) :
    (Session.empty.performAll calls).memory.ledger.Charges account block ↔
      block ∈ Session.empty.builtWith account calls := by
  obtain ⟨_, _, hbuilt, hcharges⟩ := balanced_empty.performAll hallowed
  refine ⟨fun hcharged ↦ ?_, hcharges account block⟩
  rcases hbuilt block hheld with hnone | ⟨other, hother⟩
  · exact absurd hnone List.not_mem_nil
  · rw [hcharged.account_eq (hcharges other block hother)]
    exact hother

end Session

/-- After any sequence of allowed calls, every counter stands at the bytes of the blocks that were
built on its account and that somebody holds, each of them counted once. No allowed call takes more
bytes off a counter than it holds, and a build that fails leaves the memory as it was. -/
theorem counters_stand_at_held_blocks (calls : List SessionCall)
    (hallowed : Session.empty.AllowsAll calls) :
    let session := Session.empty.performAll calls
    (∀ counter < session.memory.ledger.counters.size,
      let built := Session.empty.builtWith (some counter) calls
      let balance := (session.memory.ledger.balance (some counter)).toNat
      (∃ blocks : List Block, blocks.Nodup ∧
          (∀ block, block ∈ blocks ↔ block ∈ built ∧ session.Holds block) ∧
          balance = (blocks.map Block.sizeInBytes).sum) ∧
        ((∀ block ∈ built, ¬ session.Holds block) → balance = 0)) ∧
    ∀ call, session.Allows call →
      (∀ bytes tracked, (session.perform call).1 ≠
        .error (.broken (.untrackedBytes bytes tracked))) ∧
      ∀ name error, call = .build name → (session.perform call).1 = .error error →
        (session.perform call).2.memory = session.memory := by
  intro session
  have hbalanced : session.Balanced [] := (Session.balanced_empty.performAll hallowed).1
  refine ⟨fun counter hcounter ↦ ?_, fun call hcall ↦ ⟨?_, ?_⟩⟩
  · intro built balance
    have haccounts : session.memory.ledger.Accounts session.held := hbalanced.serves.accounts
    obtain ⟨blocks, hnodup, hblocks, hsum⟩ := haccounts.balance_eq_sum hcounter
    have hmem (block : Block) : block ∈ blocks ↔ block ∈ built ∧ session.Holds block := by
      rw [hblocks, ← hbalanced.mem_held_iff, and_comm]
      exact and_congr_left (Session.charges_iff_mem_builtWith hallowed)
    refine ⟨⟨blocks, hnodup, hmem, hsum⟩, fun hnone ↦ ?_⟩
    have hnil : blocks = [] := by
      apply List.eq_nil_iff_forall_not_mem.mpr
      intro block hblock
      obtain ⟨hbuilt, hholds⟩ := (hmem block).mp hblock
      exact hnone block hbuilt hholds
    rw [hnil] at hsum
    exact hsum
  · intro bytes tracked hfault
    have hfalse : true = false := (hbalanced.leads hcall).avoids _ hfault
    exact absurd hfalse nofun
  · rintro name error rfl herror
    cases hgraph : session.builder.compress with
    | error failure => rw [(hbalanced.leads_build_of_error name hgraph).perform_eq]
    | ok graph =>
      obtain ⟨_, _, _, _, _, hleads, _⟩ := hbalanced.leads_build hcall hgraph
      rw [hleads.perform_eq] at herror
      exact absurd herror nofun

/-- Calls that build a graph of one relationship, and release its topology by one of two views. -/
def trackedCalls : List SessionCall :=
  [.setAccount true, .builder (.declareKeys ["weight"]),
    .builder (.addArcByOriginals 5 7 #[Float.toBits 1.5]), .build "graph",
    .openView "graph" (some "weight") "view", .copy "view" "copy", .releaseTopology "view",
    .drop "graph"]

/-- The builder before its graph is built. -/
def singleArc : GraphBuilder :=
  { GraphBuilder.new with
    keys := ["weight"], account := some 0
    ids := ⟨(Std.HashMap.insert ∅ 5 0).insert 7 1, #[5, 7], ∅⟩
    arcs := #[⟨0, 1, #[Float.toBits 1.5]⟩] }

theorem performAll_trackedCalls :
    Session.empty.performAll (trackedCalls.take 3) = { Session.empty with
      memory := ⟨Ledger.empty.openCounter.1, #[]⟩, account := some 0, builder := singleArc } := by
  let settled : GraphBuilder := { GraphBuilder.new with keys := ["weight"], account := some 0 }
  have harc : (settled.perform (.addArcByOriginals 5 7 #[Float.toBits 1.5])).2 = singleArc := by
    rw [GraphBuilder.perform, BuilderCall.toCall, run_bind,
      GraphBuilder.run_addArcByOriginals settled IdMapBuilder.valid_empty]
    simp [IdMapBuilder.register, IdMapBuilder.node?, IdMapBuilder.nodeCount, IdMapBuilder.empty,
      GraphBuilder.new, settled, singleArc]
    rfl
  have hstart : Session.empty.performAll (trackedCalls.take 2) = { Session.empty with
      memory := ⟨Ledger.empty.openCounter.1, #[]⟩, account := some 0, builder := settled } := rfl
  have hlast : Session.empty.performAll (trackedCalls.take 3) =
      ((Session.empty.performAll (trackedCalls.take 2)).perform
        (.builder (.addArcByOriginals 5 7 #[Float.toBits 1.5]))).2 := rfl
  rw [hlast, hstart, Session.perform_builder, harc]

theorem allowsAll_trackedCalls : Session.empty.AllowsAll trackedCalls := by
  refine ⟨trivial, trivial, trivial, fun graph hgraph ↦ ?_, trivial, trivial, trivial, trivial,
    trivial⟩
  change (Session.empty.performAll (trackedCalls.take 3)).builder.compress = .ok graph at hgraph
  change ((Session.empty.performAll (trackedCalls.take 3)).memory.ledger.balance
    (Session.empty.performAll (trackedCalls.take 3)).builder.account).toNat + _ < _
  rw [performAll_trackedCalls] at hgraph ⊢
  have hsize : (singleArc.compress.map CompressedGraph.sizeInBytes).toOption = some 58 := by
    decide +kernel
  rw [hgraph] at hsize
  rw [Option.some.inj hsize]
  decide

theorem counters_stand_at_blocks_of_singleArc :
    Session.empty.AllowsAll trackedCalls ∧
      let session := Session.empty.performAll trackedCalls
      0 < session.memory.ledger.counters.size ∧
        ∃ blocks : List Block, blocks.Nodup ∧
          (∀ block, block ∈ blocks ↔
            block ∈ Session.empty.builtWith (some 0) trackedCalls ∧ session.Holds block) ∧
          (session.memory.ledger.balance (some 0)).toNat = (blocks.map Block.sizeInBytes).sum := by
  have hfirst := Session.balanced_empty.leads allowsAll_trackedCalls.1
  have hcounter : 0 < (Session.empty.performAll trackedCalls).memory.ledger.counters.size :=
    (hfirst.balanced.performAll allowsAll_trackedCalls.2).2.1.size_counters
  exact ⟨allowsAll_trackedCalls, hcounter,
    ((counters_stand_at_held_blocks trackedCalls allowsAll_trackedCalls).1 0 hcounter).1⟩

end PackedGraph
