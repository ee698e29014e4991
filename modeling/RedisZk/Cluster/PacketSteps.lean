/-
# Packets, as runs of steps

The stages of `clusterProcessPacket` one by one, each a run of moves; the end of
a handshake is the only one that takes a node or a name away. A packet of a
process of the cluster (`MsgOK`) that reaches `x` is thus a run of `Change`
(`clusterProcessPacket_does`), the count of a vote excepted
(`clusterProcessPacket_ack`).

Key definitions: `packetCtx`, `LinkOK`.
Key theorems: `clusterProcessGossipSection_moves`, `processRole_does`, `processPing_does`,
`clusterProcessPacket_does`, `clusterProcessPacket_ack`.
-/
import RedisZk.Cluster.FailoverSteps

namespace RedisZk.Cluster

open Relation
open Stepwise (Within)

variable {st st' st'' : Server} {c : Ctx} {R : Set NodeName} {x : NodeName}

/-! ### Failure detection -/

theorem markNodeAsFailingIfNeeded_moves (env : Env) (hi : NodeInv c.R x st) (p : NodePtr) :
    Moves c st (markNodeAsFailingIfNeeded env st p) := by
  unfold markNodeAsFailingIfNeeded
  refine .ite (fun _ => .refl) fun _ => .ite (fun _ => .refl) fun _ => ?_
  dsimp only [clusterNodeFailureReportsCount]
  have hclean : Soft c.R st (clusterNodeCleanupFailureReports env st p) :=
    clusterNodeCleanupFailureReports_soft env st p
  refine .ite (fun _ => hclean.moves) fun _ => ?_
  generalize clusterNodeCleanupFailureReports env st p = s1 at hclean ⊢
  have hfail : Soft c.R s1 (s1.modNode p fun n =>
      { n with flags := { n.flags with pfail := false, fail := true }, failTime := env.now }) :=
    .modNode s1 p ⟨rfl, rfl, rfl, rfl, rfl, rfl, rfl, rfl, rfl, rfl⟩ (.inl rfl) nofun
  generalize s1.modNode p _ = s2 at hfail ⊢
  have hrun : Moves c st s2 := (hclean.trans hfail).moves
  have hsend : Moves c s2 (if nodeIsMaster s2.me then clusterSendFail env s2 (s2.heap p).name else s2) :=
    .ite (fun _ => clusterSendFail_moves (hi.moves hrun) env _) fun _ => .refl
  exact (hrun.trans hsend).trans (Soft.doBeforeSleep _ _).moves

theorem clearNodeFailureIfNeeded_soft (env : Env) (st : Server) (p : NodePtr) :
    Soft R st (clearNodeFailureIfNeeded env st p) := by
  have hclear : ∀ s : Server, Soft R s (clusterDoBeforeSleep (s.modFlags p fun f => { f with fail := false })
      { updateState := true, saveConfig := true }) := fun s => by
    have hflag : Soft R s (s.modFlags p fun f => { f with fail := false }) :=
      .modFlags s p (fun _ => ⟨rfl, rfl, rfl, rfl⟩) .inl
    exact hflag.trans (.doBeforeSleep _ _)
  unfold clearNodeFailureIfNeeded
  extract_lets n clear s1
  have h1 : Soft R st s1 := .ite (fun _ => hclear st) fun _ => .refl st
  exact .ite (fun _ => h1.trans (hclear s1)) fun _ => h1

/-! ### Gossip -/

theorem processGossipKnown_moves (env : Env) (hi : NodeInv c.R x st) (sender : Option NodePtr) (p : NodePtr)
    (g : GossipEntry) : Moves c st (processGossipKnown env sender st p g) := by
  unfold processGossipKnown
  extract_lets failing s1 pongtime s2 n
  have h1 : Moves c st s1 := by
    dsimp only [s1]
    split
    · exact .refl
    · rename_i s
      refine .ite (fun _ => .ite (fun _ => ?_) fun _ => ?_) fun _ => .refl
      · have hadd := (clusterNodeAddFailureReport_soft (R := c.R) env st p s).moves
        exact hadd.trans (markNodeAsFailingIfNeeded_moves env (hi.moves hadd) p)
      · exact (clusterNodeDelFailureReport_soft env st p s).moves
  have h2 : Soft c.R s1 s2 := by
    refine .ite (fun _ => ?_) fun _ => .refl s1
    have hclean : Soft c.R s1 (clusterNodeCleanupFailureReports env s1 p) :=
      clusterNodeCleanupFailureReports_soft env s1 p
    refine .ite (fun _ => hclean.trans (.modData _ p fun n => ?_)) fun _ => hclean
    exact ⟨.of_eq rfl, rfl, rfl⟩
  refine h1.trans (h2.trans (.ite (fun _ => ?_) fun _ => .refl s2)).moves
  exact .modNode s2 p ⟨rfl, rfl, rfl, rfl, rfl, rfl, rfl, rfl, rfl, rfl⟩ (.inr rfl) .inl

/-- `createClusterNode`, an address, `clusterAddNode`. -/
theorem createNode_moves (env : Env) (ht : TableInv x st) (name : Option NodeName) (flags : NodeFlags)
    (ip : String) (port cport : ℕ) (hmyself : flags.myself = false)
    (hrole : name.getD env.randomName ∈ c.R → settled flags) :
    Moves c st (clusterAddNode ((createClusterNode env st name flags).1.modNode st.nextPtr fun n =>
      { n with ip := ip, port := port, cport := cport }) st.nextPtr) := by
  change Moves c st (clusterAddNode ((alloc st _).modNode st.nextPtr _) st.nextPtr)
  rw [alloc_modNode]
  exact addNode_moves ht _ rfl rfl rfl rfl rfl rfl hmyself hrole

theorem processGossipUnknown_moves (env : Env) (hi : NodeInv c.R x st) (sender : Option NodePtr) {g : GossipEntry}
    (hg : GossipOK c.R g) : Moves c st (processGossipUnknown env sender st g) := by
  have hlist : Soft c.R st (clusterBlacklistCleanup env st) := .of_eq rfl id
  have hadd := createNode_moves (c := c) env (hi.moves hlist.moves).table (some g.nodename) g.flags g.ip g.port
    g.cport hg.1 hg.2
  unfold processGossipUnknown
  exact .ite (fun _ => .ite (fun _ => hlist.moves) fun _ => hlist.moves.trans hadd) fun _ => .refl

theorem processGossipEntry_moves (env : Env) (hi : NodeInv c.R x st) (sender : Option NodePtr) {g : GossipEntry}
    (hg : GossipOK c.R g) : Moves c st (processGossipEntry env sender st g) := by
  unfold processGossipEntry
  split
  · exact processGossipKnown_moves env hi sender _ g
  · exact processGossipUnknown_moves env hi sender hg

variable {gossip : List GossipEntry}

theorem clusterProcessGossipSection_moves (env : Env) (hi : NodeInv c.R x st) (linkNode : Option NodePtr)
    (hdr : ClusterMsg) (hg : ∀ g ∈ gossip, GossipOK c.R g) :
    Moves c st (clusterProcessGossipSection env st linkNode hdr gossip) :=
  Stepwise.foldl_invariant (Q := Moves c st) gossip st .refl fun _ hs g hmem =>
    hs.trans (processGossipEntry_moves env (hi.moves hs) _ (hg g hmem))

/-! ### Header and address -/

theorem nodeUpdateAddressIfNeeded_soft (env : Env) (st : Server) (p : NodePtr) (linkNode : Option NodePtr)
    (hdr : ClusterMsg) : Soft R st (nodeUpdateAddressIfNeeded env st p linkNode hdr).1 := by
  unfold nodeUpdateAddressIfNeeded
  extract_lets n
  split
  · exact .refl st
  · split
    · exact .refl st
    · have haddr : Soft R st (st.modNode p fun n =>
          { n with ip := nodeIp2String env hdr, port := hdr.port, cport := hdr.cport, link := none
                   flags := { n.flags with noaddr := false } }) :=
        .modNode st p ⟨rfl, rfl, rfl, rfl, rfl, rfl, rfl, rfl, rfl, rfl⟩ (.inr rfl) .inl
      exact haddr

/-- The address of the sender, and the wish to save it if it changed. -/
theorem updateAddress_soft (env : Env) (st : Server) (p : NodePtr) (linkNode : Option NodePtr) (hdr : ClusterMsg) :
    Soft R st (if (nodeUpdateAddressIfNeeded env st p linkNode hdr).2 then
      clusterDoBeforeSleep (nodeUpdateAddressIfNeeded env st p linkNode hdr).1
        { saveConfig := true, updateState := true }
      else (nodeUpdateAddressIfNeeded env st p linkNode hdr).1) := by
  have h := nodeUpdateAddressIfNeeded_soft (R := R) env st p linkNode hdr
  exact .ite (fun _ => h.trans (.doBeforeSleep _ _)) fun _ => h

variable {s : NodePtr} {hdr : ClusterMsg}

theorem updateFromHeader_moves (env : Env) (hs : s ∈ st.nodes)
    (hle : hdr.configEpoch ≤ hdr.currentEpoch) :
    Moves c st (updateFromHeader env st s hdr) ∧ hdr.currentEpoch ≤ (updateFromHeader env st s hdr).currentEpoch := by
  unfold updateFromHeader
  extract_lets s1 s2 s3
  have h1 : Moves c st s1 := by
    refine .ite (fun h => ?_) fun _ => .refl
    exact .single (.raise st hdr.currentEpoch (le_of_lt h))
  have hepoch : hdr.currentEpoch ≤ s1.currentEpoch := by
    dsimp only [s1]
    split
    · exact le_rfl
    · omega
  have hs1 : s ∈ s1.nodes := h1.mem hs
  have h2 : Moves c s1 s2 := by
    refine .ite (fun _ => ?_) fun _ => .refl
    have hlearn := (Reshape.learn (c := c) s1 s hdr.configEpoch hs1 (hle.trans hepoch)).moves
    exact hlearn.trans (Soft.doBeforeSleep _ _).moves
  have h3 : Soft c.R s2 s3 := by
    refine .modData s2 s fun n => ?_
    exact ⟨.of_eq rfl, rfl, rfl⟩
  have h4 : Soft c.R s3 (if s3.mfEnd ≠ 0 ∧ nodeIsSlave s3.me = true ∧ s3.me.slaveof = some s ∧ hdr.paused = true ∧
      s3.mfMasterOffset = 0 then { s3 with mfMasterOffset := hdr.offset } else s3) :=
    .ite (fun _ => .of_eq rfl id) fun _ => .refl s3
  have h24 := h2.trans (h3.trans h4).moves
  refine ⟨h1.trans h24, hepoch.trans ?_⟩
  exact Stepwise.keeps (I := fun b : Server => s1.currentEpoch ≤ b.currentEpoch)
    (fun a b ha hm => ha.trans hm.currentEpoch_le) h24 le_rfl

theorem processHeader_moves (env : Env) (hs : s ∈ st.nodes)
    (hle : hdr.configEpoch ≤ hdr.currentEpoch) : Moves c st (processHeader env st s hdr) := by
  have hdata : Soft c.R st (st.modNode s fun n => { n with dataReceived := env.now }) := by
    refine .modData st s fun n => ?_
    exact ⟨.of_eq rfl, rfl, rfl⟩
  have hhead := updateFromHeader_moves (c := c) env (hdata.moves.mem hs) hle
  exact .ite (fun _ => hdata.moves) fun _ => hdata.moves.trans hhead.1

/-- The header changes no role and no link. -/
theorem updateFromHeader_frame {α : Type*} (env : Env) (st : Server) (s p : NodePtr) (hdr : ClusterMsg)
    (φ : ClusterNode → α) (hepoch : ∀ n e, φ { n with configEpoch := e } = φ n)
    (hoffset : ∀ n o t, φ { n with replOffset := o, replOffsetTime := t } = φ n) :
    φ ((updateFromHeader env st s hdr).heap p) = φ (st.heap p) := by
  unfold updateFromHeader
  extract_lets s1 s2 s3
  have h1 : s1.heap = st.heap := by
    dsimp only [s1]
    split <;> rfl
  have h2 : φ (s2.heap p) = φ (s1.heap p) := by
    dsimp only [s2]
    split
    · exact modNode_field φ (fun n => hepoch n _) s1 s p
    · rfl
  have h3 : φ (s3.heap p) = φ (s2.heap p) := modNode_field φ (fun n => hoffset n _ _) s2 s p
  rw [← h1, ← h2, ← h3]
  split <;> rfl

theorem processHeader_frame {α : Type*} (env : Env) (st : Server) (s p : NodePtr) (hdr : ClusterMsg)
    (φ : ClusterNode → α) (hepoch : ∀ n e, φ { n with configEpoch := e } = φ n)
    (hoffset : ∀ n o t, φ { n with replOffset := o, replOffsetTime := t } = φ n)
    (hdata : ∀ n t, φ { n with dataReceived := t } = φ n) :
    φ ((processHeader env st s hdr).heap p) = φ (st.heap p) := by
  have h1 : φ ((st.modNode s fun n => { n with dataReceived := env.now }).heap p) = φ (st.heap p) :=
    modNode_field φ (fun n => hdata n _) st s p
  unfold processHeader
  extract_lets s1
  split
  · exact h1
  · rw [updateFromHeader_frame env s1 s p hdr φ hepoch hoffset]
    exact h1

/-! ### Replies and the end of a handshake -/

theorem replyToPing_moves (env : Env) (hi : NodeInv c.R x st) (peer : NodeName) (linkNode sender : Option NodePtr)
    (hdr : ClusterMsg) (type : PingType) (hg : ∀ g ∈ gossip, GossipOK c.R g)
    (hrandom : env.randomName ∉ c.R) :
    Moves c st (replyToPing env st peer linkNode sender hdr type gossip) := by
  unfold replyToPing
  extract_lets s1 s2
  have h1 : Soft c.R st s1 := by
    refine .ite (fun _ => ?_) fun _ => .refl st
    have hip : Soft c.R st (st.modNode st.myself fun n => { n with ip := env.sockIp }) := by
      refine .modData st _ fun n => ?_
      exact ⟨.of_eq rfl, rfl, rfl⟩
    exact hip.trans (.doBeforeSleep _ _)
  have hi1 := hi.moves h1.moves
  have h2 : Moves c s1 s2 := by
    refine .ite (fun _ => ?_) fun _ => .refl
    have hnew := (createNode_moves (c := c) env hi1.table none { handshake := true } (nodeIp2String env hdr) hdr.port
      hdr.cport rfl fun h => absurd h hrandom).trans (Soft.doBeforeSleep _ { saveConfig := true }).moves
    exact hnew.trans (clusterProcessGossipSection_moves env (hi1.moves hnew) linkNode hdr hg)
  have hrun := h1.moves.trans h2
  exact hrun.trans (clusterSendPing_moves (hi.moves hrun) env peer linkNode .pong)

/-- The reply to a sender that is known changes no role. -/
theorem replyToPing_master (env : Env) (st : Server) (peer : NodeName) (linkNode : Option NodePtr) (s : NodePtr)
    (hdr : ClusterMsg) (type : PingType) (gossip : List GossipEntry) (q : NodePtr) :
    nodeIsMaster ((replyToPing env st peer linkNode (some s) hdr type gossip).heap q) = nodeIsMaster (st.heap q) := by
  unfold replyToPing
  extract_lets s1 s2
  have h1 : nodeIsMaster (s1.heap q) = nodeIsMaster (st.heap q) := by
    dsimp only [s1]
    split
    · exact modNode_field nodeIsMaster (f := fun n => { n with ip := env.sockIp }) (fun _ => rfl) st _ q
    · rfl
  have h2 : s2 = s1 := if_neg (by simp)
  rw [h2, ← h1]
  unfold clusterSendPing
  dsimp only [clusterSendMessage]
  split
  · exact modNode_field nodeIsMaster (f := fun n => { n with pingSent := env.now }) (fun _ => rfl) s1 _ q
  · rfl

theorem clusterRenameNode_eq (hi : NodeInv R x st) {p : NodePtr} (hp : p ∈ st.nodes) {name : NodeName}
    (hname : clusterLookupNode st name = none) :
    clusterRenameNode st p name =
      .ok { st.modNode p (fun n => { n with name := name }) with nodes := st.nodes.erase p ++ [p] } := by
  unfold clusterRenameNode
  rw [if_pos hp]
  unfold clusterAddNode
  have hnone : clusterLookupNode (Server.modNode { st with nodes := st.nodes.erase p } p fun n =>
      { n with name := name }) name = none := by
    rw [clusterLookupNode_none] at hname ⊢
    intro q hq
    obtain ⟨hne, hq⟩ := hi.table.nodup.mem_erase_iff.mp hq
    rw [modNode_heap_ne hne]
    exact hname q hq
  extract_lets s1 s2
  have hself : (s2.heap p).name = name := by
    dsimp only [s2]
    rw [modNode_heap_self]
  rw [hself, hnone]
  rfl

/-- Over the link of a node comes the packet of the process at its other end: the
handshake ends, the node is freed because that process is known already, or
nothing happens. -/
theorem processLinkNode_within (env : Env) (hi : NodeInv c.R x st) {p : NodePtr} (hp : p ∈ st.nodes)
    (hme : p ≠ st.myself) (sender : Option NodePtr) (hrole : settled hdr.flags)
    (hnone : sender = none → clusterLookupNode st hdr.sender = none ∧
      ∀ l, (st.heap p).link = some l → l.peer = hdr.sender)
    (hmaster : c.master = st.me.slaveof) :
    Within (fun r => Changes c st r.1 ∧ (r.2 = true → sender ≠ none → r.1 = st)) (Stepwise.Fails (Change c) Cause st)
      (processLinkNode env st p sender hdr) := by
  unfold processLinkNode
  split
  · rename_i hh
    split
    · rename_i s
      have haddr := updateAddress_soft (R := c.R) env st s (some p) hdr
      refine Within.bind (Q := fun b => Changes c st b) (Stepwise.Does.trans haddr.moves.change ?_)
        fun b hb => ⟨hb, by rintro ⟨⟩⟩
      refine clusterDelNode_does env (hi.moves haddr.moves) (haddr.moves.mem hp) ?_ fun hso => ?_
      · rw [haddr.table.myself]
        exact hme
      · rw [Server.me, haddr.table.myself, (haddr.table.core _).slaveof] at hso
        exact ⟨(haddr.table.core p).handshake.trans hh, hmaster.trans hso⟩
    · obtain ⟨hfree, hlink⟩ := hnone rfl
      have hend := Change.endHandshake (c := c) st p hdr.sender
        { (st.heap p).flags with
          handshake := false
          master := (st.heap p).flags.master || hdr.flags.master
          slave := (st.heap p).flags.slave || hdr.flags.slave }
        hp hme hh hfree (by
          refine ⟨?_, rfl⟩
          rcases hrole.1 with h | h
          · simp [h]
          · simp [h]) rfl hlink
      rw [clusterRenameNode_eq hi hp hfree]
      have heq : ∀ f : NodeFlags → NodeFlags,
          Server.modFlags { st.modNode p (fun n => { n with name := hdr.sender }) with nodes := st.nodes.erase p ++ [p] }
            p f = endHandshake st p hdr.sender (f (st.heap p).flags) := by
        intro f
        simp [endHandshake, Server.modFlags, Server.modNode]
      refine ⟨?_, fun _ h => absurd rfl h⟩
      change Changes c st (clusterDoBeforeSleep (Server.modFlags _ p _) _)
      rw [heq]
      exact (ReflTransGen.single hend).trans (Soft.doBeforeSleep _ _).moves.change
  · split
    · have hwrong : Soft c.R st (st.modNode p fun n =>
          { n with flags := { n.flags with noaddr := true }, ip := "", port := 0, cport := 0, link := none }) :=
        .modNode st p ⟨rfl, rfl, rfl, rfl, rfl, rfl, rfl, rfl, rfl, rfl⟩ (.inr rfl) .inl
      exact ⟨(hwrong.trans (.doBeforeSleep _ _)).moves.change, by rintro ⟨⟩⟩
    · exact ⟨.refl, fun _ _ => rfl⟩

theorem processPong_soft (env : Env) (st : Server) (p : NodePtr) : Soft R st (processPong env st p) := by
  unfold processPong
  extract_lets s1
  have h1 : Soft R st s1 := by
    refine .modData st p fun n => ?_
    exact ⟨.of_eq rfl, rfl, rfl⟩
  have hflag : Soft R s1 (s1.modFlags p fun f => { f with pfail := false }) :=
    .modFlags s1 p (fun _ => ⟨rfl, rfl, rfl, rfl⟩) nofun
  refine .ite (fun _ => h1.trans (hflag.trans (.doBeforeSleep _ _))) fun _ => .ite (fun _ => ?_) fun _ => h1
  exact h1.trans (clearNodeFailureIfNeeded_soft env s1 p)

/-! ### Roles and slots -/

theorem turnIntoSlave_within (hi : NodeInv c.R x st) (hs : s ∈ st.nodes)
    (hm : nodeIsMaster (st.heap s) = true) (hself : s = st.myself → c.selfDemote) :
    Within (fun b => Moves c st b ∧ nodeIsSlave (b.heap s) = true ∧ nodeIsMaster (b.heap s) = false) (fun _ => False)
      (turnIntoSlave st s) := by
  unfold turnIntoSlave
  refine Within.bind (clusterDelNodeSlots_within hi s) fun b (hb : SlotRun c st b) => ?_
  have hmb : nodeIsMaster (b.heap s) = true := by
    rw [nodeIsMaster, (hb.keeps.same s).master (by decide)]
    exact hm
  have hdem := Reshape.demote (c := c) b s (hb.moves.mem hs) hmb (by rw [hb.keeps.myself]; exact hself)
  refine ⟨(hb.moves.trans hdem.moves).trans (Soft.doBeforeSleep _ _).moves, ?_, ?_⟩
  · simp [nodeIsSlave, clusterDoBeforeSleep, modFlags_heap]
  · simp [nodeIsMaster, clusterDoBeforeSleep, modFlags_heap]

theorem processRole_does (hi : NodeInv c.R x st) (hs : s ∈ st.nodes) (hset : settled (st.heap s).flags)
    (slaveof : Option NodeName) (hself : slaveof ≠ none → s = st.myself → nodeIsMaster st.me = true → c.selfDemote) :
    Does c st (processRole st s slaveof) := by
  unfold processRole
  split
  · exact Stepwise.Does.ok (clusterSetNodeAsMaster_moves hs)
  · rename_i name
    extract_lets master rest
    refine Within.ite_bind (Q := fun b => Moves c st b ∧ nodeIsSlave (b.heap s) = true ∧ nodeIsMaster (b.heap s) = false)
      (fun hm => Within.mono (turnIntoSlave_within hi hs hm fun e =>
        hself nofun e (by rw [Server.me, ← e]; exact hm)) (fun _ => id) nofun)
      (fun hm => ?_)
      fun b ⟨hb, hsl, hnm⟩ => ?_
    · rw [Bool.not_eq_true] at hm
      refine ⟨.refl, ?_, hm⟩
      rcases hset.1 with h | h
      · rw [nodeIsMaster, h] at hm
        cases hm
      · exact h
    · dsimp only [rest, master]
      split
      · exact hb
      · rename_i m hlook
        have hh : nodeInHandshake (b.heap s) = false := (hb.handshake hi hs).trans hset.2
        have hmb : m ∈ b.nodes := hb.mem (clusterLookupNode_some hlook).1
        exact hb.trans (Reshape.changeMaster b s m (hb.mem hs) hmb hsl hnm hh).moves

theorem staleSlotOwner_mem (hs : SlotInv st) {s n : NodePtr} {claimed : Bitmap} {e : ℕ}
    (h : staleSlotOwner st s claimed e = some n) : n ∈ st.nodes := by
  obtain ⟨j, -, hj⟩ := List.exists_of_findSome?_eq_some h
  split at hj
  · split at hj
    · cases hj
    · rename_i m hm
      split at hj
      · rw [← Option.some.inj hj]
        exact hs.owner_mem j m hm
      · cases hj
  · cases hj

theorem processSlots_does (env : Env) (hi : NodeInv c.R x st) (hs : s ∈ st.nodes) (e : ℕ)
    (claimed : Bitmap) : Does c st (processSlots env st s e claimed) := by
  unfold processSlots
  extract_lets dirty rest
  refine Within.ite_bind (fun _ => clusterUpdateSlotsConfigWith_does env hi hs e claimed)
    (fun _ => Stepwise.Does.ok .refl) fun b (hb : Moves c st b) => Stepwise.Does.trans hb ?_
  dsimp only [rest]
  split
  · split
    · exact Stepwise.Does.ok .refl
    · rename_i n hn
      have hib := hi.moves hb
      exact Stepwise.Does.ok (clusterSendUpdate_moves hib env _ (staleSlotOwner_mem hib.slots hn))
  · exact Stepwise.Does.ok .refl

theorem processSender_does (env : Env) (hi : NodeInv c.R x st) (hs : s ∈ st.nodes)
    (hR : (st.heap s).name ∈ c.R) (linkNode : Option NodePtr) (hdr : ClusterMsg) (e : ℕ)
    (hg : ∀ g ∈ gossip, GossipOK c.R g)
    (hself : hdr.slaveof ≠ none → s = st.myself → nodeIsMaster st.me = true → c.selfDemote) :
    Does c st (processSender env st s linkNode hdr e gossip) := by
  unfold processSender
  refine Stepwise.Does.bind (processRole_does hi hs (hi.roles s hs hR) _ hself) fun b (hb : Moves c st b) => ?_
  refine Stepwise.Does.bind (processSlots_does env (hi.moves hb) (hb.mem hs) _ _) fun b' hb' => ?_
  have hi' := (hi.moves hb).moves hb'
  extract_lets b''
  have hcoll : Moves c b' b'' := .ite (fun _ => clusterHandleConfigEpochCollision_moves hi' s) fun _ => .refl
  exact hcoll.trans (clusterProcessGossipSection_moves env (hi'.moves hcoll) linkNode hdr hg)

/-! ### PING, PONG, MEET -/

theorem updateSender_soft (env : Env) (st : Server) (s : NodePtr) (linkNode : Option NodePtr) (hdr : ClusterMsg)
    (type : PingType) : Soft R st (updateSender env st s linkNode hdr type) := by
  unfold updateSender
  extract_lets s1
  have h1 : Soft R st s1 := .modFlags st s (fun _ => ⟨rfl, rfl, rfl, rfl⟩) .inl
  exact .ite (fun _ => h1.trans (updateAddress_soft env s1 s linkNode hdr)) fun _ => h1

/-- A packet that came over the link of a node of the table is a PONG, and the link is
to another process. -/
structure LinkOK (st : Server) (p : NodePtr) (type : PingType) : Prop where
  mem : p ∈ st.nodes
  ne : p ≠ st.myself
  pong : type = .pong

theorem processPing_does (env : Env) (hi : NodeInv c.R x st) (peer : NodeName) {linkNode sender : Option NodePtr}
    (hmsg : MsgOK c.R hdr.sender hdr) (hR : hdr.sender ∈ c.R) (e : ℕ) {type : PingType}
    (hg : ∀ g ∈ gossip, GossipOK c.R g) (hrandom : env.randomName ∉ c.R)
    (hmaster : c.master = st.me.slaveof)
    (hsender : ∀ s, sender = some s → s ∈ st.nodes ∧ (st.heap s).name = hdr.sender)
    (hlink : ∀ p, linkNode = some p → LinkOK st p type)
    (hnone : sender = none → clusterLookupNode st hdr.sender = none ∧
      ∀ p, linkNode = some p → ∀ l, (st.heap p).link = some l → l.peer = hdr.sender)
    (hself : hdr.sender = x → hdr.slaveof ≠ none → nodeIsMaster st.me = true → c.selfDemote) :
    DoesChange c st (processPing env st peer linkNode sender hdr e type gossip) := by
  unfold processPing
  extract_lets s1 rest
  -- the reply: not for a PONG, so not over the link of a node
  have h1 : Moves c st s1 :=
    .ite (fun _ => replyToPing_moves env hi peer linkNode sender hdr type hg hrandom) fun _ => .refl
  have hi1 := hi.moves h1
  have hrest : ∀ r : Server × Bool, (Changes c s1 r.1 ∧ (r.2 = true → sender ≠ none → r.1 = s1)) →
      DoesChange c s1 (rest r) := by
    intro ⟨s2, goOn⟩ ⟨h2, hsame⟩
    refine Stepwise.Does.trans h2 ?_
    dsimp -zeta only [rest]
    split
    · exact Stepwise.Does.ok .refl
    · rename_i hgo
      extract_lets s3 s4
      have h3 : Soft c.R s2 s3 := by
        dsimp only [s3]
        split
        · exact updateSender_soft env s2 _ linkNode hdr type
        · exact .refl s2
      have h4 : Soft c.R s3 s4 := by
        dsimp only [s4]
        split
        · exact processPong_soft env s3 _
        · exact .refl s3
      have h34 : Moves c s2 s4 := (h3.trans h4).moves
      refine Stepwise.Does.trans h34.change ?_
      split
      · rename_i s
        obtain ⟨hs, hname⟩ := hsender s rfl
        have h12 : s2 = s1 := hsame (by simpa using hgo) nofun
        have h14 : Moves c st s4 := h1.trans (h12 ▸ h34)
        have hnames : (s4.heap s).name = hdr.sender := (h14.name hi hs).trans hname
        refine Does.change (processSender_does env (hi.moves h14) (h14.mem hs) ?_ linkNode hdr e hg fun hso heq hm => ?_)
        · rw [hnames]
          exact hR
        · refine hself ?_ hso ?_
          · rw [← hnames, heq]
            exact (hi.moves h14).table.me_name
          · have h1me : nodeIsMaster s1.me = nodeIsMaster st.me := by
              refine Eq.trans (congrArg (fun q => nodeIsMaster (s1.heap q)) h1.grows.myself) ?_
              dsimp only [s1]
              split
              · exact replyToPing_master env st peer linkNode s hdr type gossip _
              · rfl
            have h4me : nodeIsMaster s4.me = nodeIsMaster s1.me := by
              have hsoft : Soft c.R s1 s4 := h12 ▸ h3.trans h4
              rw [Server.me, hsoft.table.myself]
              exact (hsoft.table.core _).master
            rw [← h1me, ← h4me]
            exact hm
      · exact Stepwise.Does.ok .refl
  refine Stepwise.Does.trans h1.change ?_
  cases linkNode with
  | none => exact hrest (s1, true) ⟨.refl, fun _ _ => rfl⟩
  | some p =>
    have hok := hlink p rfl
    have hs1 : s1 = st := by
      dsimp only [s1]
      rw [hok.pong, if_neg (by simp)]
    refine Within.bind (processLinkNode_within env hi1 ?_ ?_ sender hmsg.role (fun h => ?_) ?_) hrest
    · exact h1.mem hok.mem
    · rw [hs1]
      exact hok.ne
    · rw [hs1]
      exact ⟨(hnone h).1, (hnone h).2 p rfl⟩
    · rw [hs1]
      exact hmaster

/-! ### The other packets -/

theorem processFail_soft (env : Env) (st : Server) (name : NodeName) : Soft R st (processFail env st name) := by
  unfold processFail
  split
  · exact .refl st
  · rename_i p hp
    refine .ite (fun _ => .refl st) fun _ => ?_
    have hfail : Soft R st (st.modNode p fun n =>
        { n with flags := { n.flags with fail := true, pfail := false }, failTime := env.now }) :=
      .modNode st p ⟨rfl, rfl, rfl, rfl, rfl, rfl, rfl, rfl, rfl, rfl⟩ (.inl rfl) nofun
    exact hfail.trans (.doBeforeSleep _ _)

theorem processMFStart_soft (env : Env) (st : Server) (s : NodePtr) : Soft R st (processMFStart env st s) :=
  .ite (fun _ => .refl st) fun _ => .of_eq rfl id

theorem processUpdate_does (env : Env) (hi : NodeInv c.R x st) (name : NodeName) {e : ℕ} (slots : Bitmap)
    (he : e ≤ st.currentEpoch) : Does c st (processUpdate env st name e slots) := by
  unfold processUpdate
  split
  · exact Stepwise.Does.ok .refl
  · rename_i n hn
    have hmem := (clusterLookupNode_some hn).1
    refine .ite (Stepwise.Does.ok .refl) ?_
    extract_lets s1 s2 s3
    have h1 : Moves c st s1 := .ite (fun _ => clusterSetNodeAsMaster_moves hmem) fun _ => .refl
    have he1 : e ≤ s1.currentEpoch := by
      refine Stepwise.keeps (I := fun b : Server => e ≤ b.currentEpoch) (fun a b ha hm => ?_) h1 he
      exact ha.trans hm.currentEpoch_le
    have h2 : Moves c s1 s2 := (Reshape.learn s1 n e (h1.mem hmem) he1).moves
    have h3 : Moves c st s3 := (h1.trans h2).trans (Soft.doBeforeSleep _ _).moves
    exact Stepwise.Does.trans h3 (clusterUpdateSlotsConfigWith_does env (hi.moves h3) (h3.mem hmem) e slots)

/-! ### `clusterProcessPacket` -/

/-- The circumstances of a packet that reaches the process `x` in state `st`: a process of
the cluster sent it, and over the link of a node only answers come. -/
structure PacketOK (c : Ctx) (x : NodeName) (st : Server) (env : Env) (linkNode : Option NodePtr) (hdr : ClusterMsg) :
    Prop where
  msg : MsgOK c.R hdr.sender hdr
  sender : hdr.sender ∈ c.R
  random : env.randomName ∉ c.R
  master : c.master = st.me.slaveof
  link : ∀ p, linkNode = some p → p ∈ st.nodes ∧ (∃ gossip, hdr.data = .ping .pong gossip) ∧
    ∃ l, (st.heap p).link = some l ∧ l.peer = hdr.sender
  request : isAuthRequest hdr = true → c.request = some (hdr.sender, hdr.currentEpoch)
  selfDemote : hdr.sender = x → hdr.slaveof ≠ none → nodeIsMaster st.me = true → c.selfDemote

/-- What the packet finds after the header is read: `s1` is the state, and `trusted` says
that the sender is known and past its handshake. -/
theorem header_spec (env : Env) (hi : NodeInv c.R x st) (hmsg : MsgOK c.R hdr.sender hdr)
    (hR : hdr.sender ∈ c.R) (hs : clusterLookupNode st hdr.sender = some s) :
    nodeInHandshake (st.heap s) = false ∧ Moves c st (processHeader env st s hdr) ∧
      hdr.currentEpoch ≤ (processHeader env st s hdr).currentEpoch ∧ s ∈ (processHeader env st s hdr).nodes ∧
      ((processHeader env st s hdr).heap s).name = hdr.sender := by
  obtain ⟨hmem, hname⟩ := clusterLookupNode_some hs
  have hh : nodeInHandshake (st.heap s) = false := (hi.roles s hmem (by rw [hname]; exact hR)).2
  have hmoves : Moves c st (processHeader env st s hdr) := processHeader_moves env hmem hmsg.epoch
  refine ⟨hh, hmoves, ?_, hmoves.mem hmem, (hmoves.name hi hmem).trans hname⟩
  unfold processHeader
  extract_lets s1
  have h1 : nodeInHandshake (s1.heap s) = false := by
    dsimp only [s1]
    rw [modNode_heap_self]
    exact hh
  have hmem1 : s ∈ s1.nodes := hmem
  rw [h1, if_neg (by simp)]
  exact (updateFromHeader_moves (c := c) env hmem1 hmsg.epoch).2

/-- A packet other than a FAILOVER_AUTH_ACK is a run of steps. -/
theorem clusterProcessPacket_does (env : Env) (hi : NodeInv c.R x st) (peer : NodeName) {linkNode : Option NodePtr}
    (hok : PacketOK c x st env linkNode hdr) (hack : isAuthAck hdr = false) :
    DoesChange c st (clusterProcessPacket env st peer linkNode hdr) := by
  unfold clusterProcessPacket
  extract_lets sender trusted ce e s1
  have hlink : ∀ type gossip, hdr.data = .ping type gossip → ∀ p, linkNode = some p →
      type = .pong ∧ p ∈ st.nodes ∧ p ≠ st.myself ∧ ∃ l, (st.heap p).link = some l ∧ l.peer = hdr.sender := by
    intro type gossip hd p hp
    obtain ⟨hmem, ⟨g, hpong⟩, l, hl, hpeer⟩ := hok.link p hp
    rw [hd] at hpong
    cases hpong
    exact ⟨rfl, hmem, (hi.edges.link p hmem l hl).1, l, hl, hpeer⟩
  cases hs : clusterLookupNode st hdr.sender with
  | none =>
    have hsend : sender = none := hs
    have hs1 : s1 = st := by
      dsimp only [s1]
      rw [hsend]
    rw [hs1, hsend]
    split
    · rename_i type gossip hd
      have hdata := hok.msg.data
      rw [hd] at hdata
      refine processPing_does env hi peer hok.msg hok.sender e hdata hok.random hok.master (by rintro _ ⟨⟩) (fun p hp => ?_)
        (fun _ => ⟨hs, fun p hp l hl => ?_⟩) hok.selfDemote
      · obtain ⟨ht, hmem, hne, -⟩ := hlink type gossip hd p hp
        exact ⟨hmem, hne, ht⟩
      · obtain ⟨-, -, -, l', hl', hpeer⟩ := hlink type gossip hd p hp
        rw [hl] at hl'
        rw [Option.some.inj hl']
        exact hpeer
    all_goals exact Stepwise.Does.ok .refl
  | some s =>
    obtain ⟨hh, hm, hle, hmem, hname⟩ := header_spec (c := c) env hi hok.msg hok.sender hs
    have hsend : sender = some s := hs
    have hs1 : s1 = processHeader env st s hdr := by
      dsimp only [s1]
      rw [hsend]
    rw [hsend]
    rw [← hs1] at hm hle hmem hname
    have hi1 := hi.moves hm
    have hme : s1.me.slaveof = st.me.slaveof := by
      have hmy : s1.myself = st.myself := hm.grows.myself
      rw [Server.me, hmy, hs1]
      exact processHeader_frame env st s st.myself hdr _ (fun _ _ => rfl) (fun _ _ _ => rfl) fun _ _ => rfl
    have hmaster : nodeIsMaster st.me = nodeIsMaster s1.me := by
      have hmy : s1.myself = st.myself := hm.grows.myself
      rw [Server.me, Server.me, hmy, hs1]
      exact (processHeader_frame env st s st.myself hdr _ (fun _ _ => rfl) (fun _ _ _ => rfl) fun _ _ => rfl).symm
    refine Stepwise.Does.trans hm.change ?_
    split
    · rename_i type gossip hd
      have hdata := hok.msg.data
      rw [hd] at hdata
      refine processPing_does env hi1 peer hok.msg hok.sender e hdata hok.random (hok.master.trans hme.symm)
        (fun s' h => ?_) (fun p hp => ?_) (by rintro ⟨⟩) (hmaster ▸ hok.selfDemote)
      · rw [← Option.some.inj h]
        exact ⟨hmem, hname⟩
      · obtain ⟨ht, hp, hne, -⟩ := hlink type gossip hd p hp
        refine ⟨hm.mem hp, ?_, ht⟩
        rw [hm.grows.myself]
        exact hne
    · exact Stepwise.Does.ok (processFail_soft env s1 _).moves.change
    · exact Stepwise.Does.ok .refl
    · rename_i hd
      have hreq := hok.request (by simp [isAuthRequest, hd])
      rw [← hname] at hreq
      refine Stepwise.Does.ok (Moves.change (clusterSendFailoverAuthIfNeeded_moves env hi1 hmem ?_ hreq hle))
      rw [hname]
      exact hok.sender
    · rename_i hd
      simp [isAuthAck, hd] at hack
    · exact Stepwise.Does.ok (processMFStart_soft env s1 s).moves.change
    · rename_i name epoch slots hd
      have hdata := hok.msg.data
      rw [hd] at hdata
      exact Does.change (processUpdate_does env hi1 name slots (le_trans hdata hle))

/-- After the header of a packet is read: its sender is the node `p`, whose role and slots
are as they were, and so is the election. -/
structure HeaderRead (st s : Server) (name : NodeName) (p : NodePtr) : Prop where
  lookup : clusterLookupNode st name = some p
  mem : p ∈ s.nodes
  name : (s.heap p).name = name
  master : nodeIsMaster (s.heap p) = nodeIsMaster (st.heap p)
  numslots : (s.heap p).numslots = (st.heap p).numslots
  authEpoch : s.failoverAuthEpoch = st.failoverAuthEpoch
  authSent : s.failoverAuthSent = st.failoverAuthSent

theorem processHeader_auth (env : Env) (st : Server) (p : NodePtr) (hdr : ClusterMsg) :
    (processHeader env st p hdr).failoverAuthEpoch = st.failoverAuthEpoch ∧
      (processHeader env st p hdr).failoverAuthSent = st.failoverAuthSent := by
  unfold processHeader
  extract_lets s0
  split
  · exact ⟨rfl, rfl⟩
  · unfold updateFromHeader
    extract_lets s1 s2 s3
    have h1 : s1.failoverAuthEpoch = st.failoverAuthEpoch ∧ s1.failoverAuthSent = st.failoverAuthSent := by
      dsimp only [s1]
      split <;> exact ⟨rfl, rfl⟩
    have h2 : s2.failoverAuthEpoch = st.failoverAuthEpoch ∧ s2.failoverAuthSent = st.failoverAuthSent := by
      dsimp only [s2]
      split
      · exact h1
      · exact h1
    split
    · exact h2
    · exact h2

/-- A FAILOVER_AUTH_ACK is read like any packet, and may be counted. -/
theorem clusterProcessPacket_ack (env : Env) (hi : NodeInv c.R x st) (peer : NodeName) {linkNode : Option NodePtr}
    (hok : PacketOK c x st env linkNode hdr) (hack : isAuthAck hdr = true) :
    ∃ s1, Moves c st s1 ∧ (clusterProcessPacket env st peer linkNode hdr = .ok s1 ∨
      ∃ p, HeaderRead st s1 hdr.sender p ∧
        clusterProcessPacket env st peer linkNode hdr = .ok (countVote s1 p hdr.currentEpoch)) := by
  have hd : hdr.data = .failoverAuthAck := by
    unfold isAuthAck at hack
    split at hack
    · assumption
    · cases hack
  unfold clusterProcessPacket
  rw [hd]
  cases hs : clusterLookupNode st hdr.sender with
  | none => exact ⟨st, .refl, .inl rfl⟩
  | some s =>
    obtain ⟨hh, hm, -, hmem, hname⟩ := header_spec (c := c) env hi hok.msg hok.sender hs
    obtain ⟨hepoch, hsent⟩ := processHeader_auth env st s hdr
    refine ⟨processHeader env st s hdr, hm, .inr ⟨s, ⟨hs, hmem, hname, ?_, ?_, hepoch, hsent⟩, ?_⟩⟩
    · exact processHeader_frame env st s s hdr nodeIsMaster (fun _ _ => rfl) (fun _ _ _ => rfl) fun _ _ => rfl
    · exact processHeader_frame env st s s hdr _ (fun _ _ => rfl) (fun _ _ _ => rfl) fun _ _ => rfl
    · simp [hh]

end RedisZk.Cluster
