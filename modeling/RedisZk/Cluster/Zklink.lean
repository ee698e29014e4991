/-
# The ZooKeeper link: zklink.c

Every master keeps an ephemeral znode named after itself; every slave watches
its master's. When the master's znode is deleted the slave marks the master
as failed, and the slaves race to create the znode `/replace-<master>`: who
creates it may replace the master.

ZooKeeper itself is a linearizable store: `zoo_create` answers ZNODEEXISTS if
and only if the path exists, an ephemeral znode vanishes when it is deleted or
when its session ends. Any call may fail, with or without having been applied
(`Env.zkFails`, `Env.zkApplied`). The paths are cut as `snprintf` cuts them: both
buffers leave room for 39 bytes of the 40 of a name.

Key definitions: `zklinkTryCreateOldMasterPath`, `zklinkWatcher`, `zklinkCron`,
`zklinkCreatePath`, `zklinkWatchPath`.
-/
import RedisZk.Cluster.Config

namespace RedisZk.Cluster

/-! ### The client library -/

def ZkStore.has (z : ZkStore) (path : ZkPath) : Bool := z.znodes.any fun e => decide (e.1 = path)

/-- The session ends: its ephemeral znodes vanish. -/
def ZkStore.endSession (z : ZkStore) (s : SessionId) : ZkStore :=
  { z with sessions := z.sessions.filter fun t => decide (t ≠ s)
           znodes := z.znodes.filter fun e => decide (e.2 ≠ s) }

/-- Whether the handle is usable: not NULL, and its session has not ended. -/
def ZkStore.alive (z : ZkStore) (zh : Option SessionId) : Bool :=
  match zh with
  | none => false
  | some s => decide (s ∈ z.sessions)

/-- `zoo_create` of an ephemeral znode. -/
def zooCreate (env : Env) (z : ZkStore) (zh : Option SessionId) (path : ZkPath) : ZkRc × ZkStore :=
  let created := { z with znodes := z.znodes ++ [(path, zh.getD 0)] }
  if z.alive zh = false then (.failed, z)
  else if env.zkFails then (.failed, if env.zkApplied && !z.has path then created else z)
  else if z.has path then (.nodeexists, z)
  else (.ok, created)

/-- `zoo_delete(path,-1)`: whoever created it. -/
def zooDelete (env : Env) (z : ZkStore) (zh : Option SessionId) (path : ZkPath) : ZkRc × ZkStore :=
  let deleted := { z with znodes := z.znodes.filter fun e => decide (e.1 ≠ path) }
  if z.alive zh = false then (.failed, z)
  else if env.zkFails then (.failed, if env.zkApplied then deleted else z)
  else if z.has path then (.ok, deleted)
  else (.nonode, z)

def zooExists (env : Env) (z : ZkStore) (zh : Option SessionId) (path : ZkPath) : ZkRc :=
  if z.alive zh = false || env.zkFails then .failed
  else if z.has path then .ok else .nonode

/-- `zoo_awget` only queues the request. -/
def zooAwget (env : Env) (zh : Option SessionId) : ZkRc :=
  if zh.isNone || env.zkFails then .failed else .ok

/-- `zookeeper_close`: the session ends if the service hears of it; else it
expires later. -/
def zookeeperClose (env : Env) (z : ZkStore) (zh : Option SessionId) : ZkStore :=
  match zh with
  | none => z
  | some s => if env.zkFails then z else z.endSession s

/-! ### Paths -/

/-- `snprintf(path, CLUSTER_NAMELEN+1, "/%s", name)` -/
def nodePath (name : NodeName) : ZkPath := (47 :: name.bytes).take CLUSTER_NAMELEN

/-- `"/replace-"` -/
def replacePrefix : ZkPath := [47, 114, 101, 112, 108, 97, 99, 101, 45]

/-- `snprintf(path, CLUSTER_NAMELEN+9, "/replace-%s", name)` -/
def oldMasterPath (name : NodeName) : ZkPath := (replacePrefix ++ name.bytes).take (CLUSTER_NAMELEN + 8)

def ZK_DEL_REPLACE_PATH_DELAY : ℤ := 5000

/-! ### The race for a failed master -/

def Server.setZklc (st : Server) (zkc : ZklinkClient) : Server := { st with zklc := some zkc }

/-- The new state, and whether the znode was created. -/
def zklinkTryCreateOldMasterPath (env : Env) (st : Server) : Server × Bool :=
  if nodeIsSlave st.me = false then (st, false)
  else match st.me.slaveof, st.zklc with
    | none, _ => (st, false)
    | _, none => (st, false)
    | some m, some zkc =>
      match zkc.replacePath with
      | none => (st, false)
      | some replacePath =>
        -- master changed
        if replacePath ≠ (st.heap m).name then (st, false)
        else
          let (rc, zk) := zooCreate env st.zk zkc.zh (oldMasterPath replacePath)
          let st := { st with zk := zk }
          if rc ≠ .ok then (st, false)
          else (st.setZklc { zkc with replacePathDelTm := env.now + ZK_DEL_REPLACE_PATH_DELAY }, true)

/-! ### Events -/

inductive ZooEvent
  | created | deleted | changed | child | session | notwatching
deriving DecidableEq, Repr

inductive ZooState
  | connecting | connected | other
deriving DecidableEq, Repr

def zklinkUpdateStateOnWatch (env : Env) (st : Server) (zkc : ZklinkClient) (path : ZkPath)
    (type : ZooEvent) : Server :=
  if nodeIsMaster st.me then st
  else match st.me.slaveof with
    | none => st
    | some m =>
      if path ≠ nodePath (st.heap m).name then st
      else
        let st := st.setZklc { zkc with zkOnWath := false }
        if type = .deleted then
          let st := st.modFlags m fun f => { f with pfail := false, fail := true }
          clusterSendFail env st (st.heap m).name
        else st

def zklinkWatcher (env : Env) (st : Server) (type : ZooEvent) (state : ZooState) (path : ZkPath) : Server :=
  match st.zklc with
  | none => st
  | some zkc =>
    if type = .session ∧ state = .connecting ∧ path = [] then
      st.setZklc { zkc with zkstate := .disConnect, zkCreatePath := false, zkOnWath := false }
    else if state ≠ .connected then st
    else if type = .session then st.setZklc { zkc with zkstate := .connected }
    else zklinkUpdateStateOnWatch env st zkc path type

/-! ### The cron -/

def zklinkInitServer (env : Env) (st : Server) (zkc : ZklinkClient) : Server :=
  let z := zookeeperClose env st.zk zkc.zh
  if env.zookeeperInit then
    { st with
      zk := { z with sessions := z.sessions ++ [z.nextSession], nextSession := z.nextSession + 1 }
      zklc := some { zkc with zh := some z.nextSession, zkstate := .waitConnect, lastAwget := none } }
  else { st with zk := z, zklc := some { zkc with zh := none, lastAwget := none } }

def zklinkDelOldMasterPath (env : Env) (st : Server) (zkc : ZklinkClient) : Server × ZklinkClient :=
  match zkc.replacePath with
  | none => (st, zkc)
  | some replacePath =>
    ({ st with zk := (zooDelete env st.zk zkc.zh (oldMasterPath replacePath)).2 },
      { zkc with replacePath := none })

def zklinkCreatePath (env : Env) (st : Server) (zkc : ZklinkClient) : Server × ZklinkClient :=
  let path := nodePath st.me.name
  if nodeIsSlave st.me then
    if zkc.zkCreatePath = false then (st, zkc)
    else match zooExists env st.zk zkc.zh path with
      | .nonode => (st, { zkc with zkCreatePath := false })
      | .ok =>
        let (rc, zk) := zooDelete env st.zk zkc.zh path
        let st := { st with zk := zk }
        if rc = .nonode ∨ rc = .ok then (st, { zkc with zkCreatePath := false }) else (st, zkc)
      | _ => (st, zkc)
  else
    let (st, zkc) :=
      if zkc.replacePathDelTm ≠ 0 ∧ zkc.replacePathDelTm < env.now then
        let (st, zkc) := zklinkDelOldMasterPath env st zkc
        (st, { zkc with replacePathDelTm := 0 })
      else (st, zkc)
    if zkc.zkCreatePath then (st, zkc)
    else
      let (rc, zk) := zooCreate env st.zk zkc.zh path
      let st := { st with zk := zk }
      if rc = .ok then (st, { zkc with zkCreatePath := true }) else (st, zkc)

def zklinkWatchPath (env : Env) (st : Server) (zkc : ZklinkClient) : ZklinkClient :=
  if nodeIsMaster st.me || zkc.zkOnWath then zkc
  else match st.me.slaveof with
    | none => zkc
    | some m =>
      if zooAwget env zkc.zh ≠ .ok then zkc
      else { zkc with zkOnWath := true, replacePath := some (st.heap m).name
                      lastAwget := some (nodePath (st.heap m).name) }

/-- `zklinkUpdte` -/
def zklinkUpdte (env : Env) (st : Server) (zkc : ZklinkClient) : Server :=
  let (st, zkc) := zklinkCreatePath env st zkc
  st.setZklc (zklinkWatchPath env st zkc)

def zklinkCron (env : Env) (st : Server) : Server :=
  if env.zkConfigured = false then st
  else match st.zklc with
    | none => st.setZklc {}
    | some zkc =>
      match zkc.zkstate with
      | .waitConnect => st
      | .uninit => zklinkInitServer env st zkc
      | .disConnect => zklinkInitServer env st zkc
      | .connected => zklinkUpdte env st zkc

end RedisZk.Cluster
