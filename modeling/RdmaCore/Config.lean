/-
  The configuration of a session (`Config` of include/rdma_config.h), and how
  `Derived_Config::parse_args` of include/config.h fills it from the command
  line.

  * `parseArgs`: the loop over the options and `conflict_check`, up to the
    calls of `exit`;
  * `parseArgs_cluster`: the cluster is what the `--cluster` options list, less
    the own address.

  A command line is what the successive calls of `getopt_long` return; the own
  address that `NetTool::get_ip` finds is a parameter.
-/
import RdmaCore.Types
import Mathlib.Data.List.Sort
import Mathlib.Tactic.Common

namespace RdmaCore

/-! ## Numbers on the command line -/

/-- `isspace` -/
def isSpace (c : Char) : Bool := c = ' ' || '\t' ≤ c && c ≤ '\r'

/-- The value of a digit or letter. -/
def digitValue (c : Char) : ℕ :=
  if c.isDigit then c.toNat - '0'.toNat
  else if 'a' ≤ c && c ≤ 'z' then c.toNat - 'a'.toNat + 10
  else if 'A' ≤ c && c ≤ 'Z' then c.toNat - 'A'.toNat + 10
  else 36

/-- The number that the longest prefix of digits denotes. -/
def leadingNumber (base : ℕ) (cs : List Char) : ℕ :=
  (cs.takeWhile fun c => digitValue c < base).foldl (fun n c => n * base + digitValue c) 0

/-- The sign of a number, and what follows it. -/
def leadingSign : List Char → Bool × List Char
  | '-' :: cs => (true, cs)
  | '+' :: cs => (false, cs)
  | cs => (false, cs)

/-- `strtoul(s, NULL, 0)` -/
def strtoul (s : String) : UInt64 :=
  let (neg, cs) := leadingSign (s.toList.dropWhile isSpace)
  let n := match cs with
    | '0' :: x :: d :: cs =>
      if (x = 'x' ∨ x = 'X') ∧ digitValue d < 16 then leadingNumber 16 (d :: cs)
      else leadingNumber 8 (x :: d :: cs)
    | '0' :: cs => leadingNumber 8 cs
    | cs => leadingNumber 10 cs
  -- `ULONG_MAX` if the number does not fit
  if 2 ^ 64 ≤ n then -1 else if neg then -UInt64.ofNat n else UInt64.ofNat n

/-- `atoi`, i.e. `strtol` in base 10, cut to an `int` -/
def atoi (s : String) : Int32 :=
  let (neg, cs) := leadingSign (s.toList.dropWhile isSpace)
  let n : ℤ := leadingNumber 10 cs
  Int32.ofInt (if neg then max (-n) (-2 ^ 63) else min n (2 ^ 63 - 1))

example : strtoul " 0x1f" = 31 ∧ strtoul "017" = 15 ∧ strtoul "-1" = -1 ∧ atoi "-12a" = -12 := by
  decide +kernel

/-! ## The configuration -/

/-- `struct Config`, without the fields that nothing but `print_config` reads -/
structure Config where
  devName : String := "mlx5_0"
  serverName : String := ""
  serveAsClient : Bool := false
  tcpPort : UInt32 := 2020
  ibPort : Int32 := 1
  gidIdx : Int32 := 3
  trafficClass : UInt32 := 0
  useEvent : Bool := false
  dataMsgSize : Int32 := 1000
  localIp : String := ""
  cluster : List String := []
  numSenders : Int32 := 0
  singleRecv : Bool := false
  treeWidth : Int32 := 0
  role : String := ""
  masterIp : String := ""
  sessionId : String := ""
  deriving DecidableEq

inductive AllReduceType where
  | unknownAllreduce
  | serverClient
  | fullMeshAllreduce
  | ringAllreduce
  | treeAllreduce
  | doubleBinaryTreeAllreduce
  deriving DecidableEq, Repr

/-- `class Derived_Config` -/
structure DerivedConfig extends Config where
  allReduce : AllReduceType := .unknownAllreduce
  deriving DecidableEq

/-- How `parse_args` can end the process. -/
inductive Exit where
  /-- the usage text and `exit(0)` -/
  | help
  /-- the usage text and `exit(-1)` -/
  | usage
  /-- `exit(-1)` in `conflict_check` -/
  | conflict
  /-- "You mush speficy master node" -/
  | noMasterNode
  deriving DecidableEq, Repr

/-- The cases of `parse_args`. -/
inductive OptVal where
  | help
  | version
  | cluster
  | port
  | ibDev
  | ibPort
  | gidIdx
  | server
  | trafficClass
  | client
  | eventChannel
  | msgSize
  | num
  | singleRecv
  | topo
  | treeWidth
  | role
  | master
  /-- the options without a case, and those that are not known -/
  | other
  deriving DecidableEq, Repr

/-- What a call of `getopt_long` returns: the option, its argument, and the
    words that follow on the command line. -/
structure Opt where
  val : OptVal
  optarg : String := ""
  following : List String := []

namespace DerivedConfig

variable (ip : String)

/-- `get_local_ip`, which keeps the address that it finds -/
def getLocalIp (c : DerivedConfig) : DerivedConfig :=
  if c.localIp = "" then { c with localIp := ip } else c

def addToCluster (c : DerivedConfig) (str : String) : DerivedConfig :=
  let c := c.getLocalIp ip
  let cluster := if c.localIp ≠ str then c.cluster ++ [str] else c.cluster
  { c with cluster := cluster.insertionSort (· ≤ ·) }

def setServerName (c : DerivedConfig) (name : String) : DerivedConfig :=
  let c := c.getLocalIp ip
  { c with serverName := name, serveAsClient := c.localIp ≠ name }

end DerivedConfig

/-- `--topo`; other texts change nothing -/
def allReduceOf (topology : String) : Option AllReduceType :=
  if topology = "full-mesh" then some .fullMeshAllreduce
  else if topology = "double-binary-tree" ∨ topology = "dbt" then some .doubleBinaryTreeAllreduce
  else if topology = "ring" then some .ringAllreduce
  else if topology = "tree" then some .treeAllreduce
  else if topology = "server-client" then some .serverClient
  else none

/-- The words of a `--cluster` option: its argument, and what follows it up to
    the next option. -/
def Opt.words (o : Opt) : List String :=
  o.optarg :: o.following.takeWhile fun w => w.toList.head? ≠ some '-'

namespace DerivedConfig

variable (ip : String)

/-- One turn of the loop of `parse_args`. -/
def parseOpt (c : DerivedConfig) (o : Opt) : Except Exit DerivedConfig :=
  match o.val with
  | .help => throw .help
  | .version => pure c
  | .cluster => pure (o.words.foldl (addToCluster ip) c)
  | .port => pure { c with tcpPort := (strtoul o.optarg).toUInt32 }
  | .ibDev => pure { c with devName := o.optarg }
  | .ibPort =>
    let ibPort := (strtoul o.optarg).toUInt32.toInt32
    if ibPort < 0 then throw .usage else pure { c with ibPort }
  | .gidIdx =>
    let gidIdx := (strtoul o.optarg).toUInt32.toInt32
    if gidIdx < 0 then throw .usage else pure { c with gidIdx }
  | .server => pure (c.setServerName ip o.optarg)
  | .trafficClass => pure { c with trafficClass := (strtoul o.optarg).toUInt32 }
  | .client => pure c
  | .eventChannel => pure { c with useEvent := true }
  | .msgSize => pure { c with dataMsgSize := atoi o.optarg }
  | .num => pure { c with numSenders := atoi o.optarg }
  | .singleRecv => pure { c with singleRecv := true }
  | .topo => pure { c with allReduce := (allReduceOf o.optarg).getD c.allReduce }
  | .treeWidth => pure { c with treeWidth := atoi o.optarg }
  | .role => pure { c with role := o.optarg }
  | .master => pure { c with masterIp := o.optarg }
  | .other => pure c

def conflictCheck (c : DerivedConfig) : Except Exit DerivedConfig :=
  let c : DerivedConfig :=
    if c.numSenders = 0 ∧ c.cluster.length ≠ 0 then
      { c with numSenders := Int32.ofNat c.cluster.length }
    else c
  if c.singleRecv ∧ c.numSenders = 0 then throw .conflict
  else if c.allReduce = .treeAllreduce ∧ c.treeWidth ≤ 0 then throw .conflict
  else if c.allReduce = .serverClient then
    if c.serverName = "" ∧ c.serveAsClient = true then throw .noMasterNode
    else
      let c := c.getLocalIp ip
      pure { c with serveAsClient := c.localIp ≠ c.serverName }
  else pure c

/-- `parse_args`, for the options that `getopt_long` returns -/
def parseArgs (c : DerivedConfig) (args : List Opt) : Except Exit DerivedConfig := do
  let c ← args.foldlM (parseOpt ip) c
  c.conflictCheck ip

/-! ## The cluster -/

variable {ip} {c c' : DerivedConfig}

/-- The own address is not looked up yet, or is `ip`. -/
def Local (ip : String) (c : DerivedConfig) : Prop := c.localIp = "" ∨ c.localIp = ip

theorem Local.getLocalIp (h : c.Local ip) :
    (c.getLocalIp ip).localIp = ip ∧ (c.getLocalIp ip).cluster = c.cluster := by
  unfold DerivedConfig.getLocalIp
  split_ifs with he
  · exact ⟨rfl, rfl⟩
  · exact ⟨h.resolve_left he, rfl⟩

theorem Local.addToCluster (h : c.Local ip) (str : String) :
    (c.addToCluster ip str).Local ip ∧
      (c.addToCluster ip str).cluster.Perm (c.cluster ++ [str].filter (· ≠ ip)) := by
  obtain ⟨hip, hcluster⟩ := h.getLocalIp
  refine ⟨Or.inr hip, ?_⟩
  have hsort := List.perm_insertionSort (· ≤ ·)
    (if (c.getLocalIp ip).localIp ≠ str then (c.getLocalIp ip).cluster ++ [str]
      else (c.getLocalIp ip).cluster)
  refine hsort.trans (List.Perm.of_eq ?_)
  rw [hip, hcluster]
  by_cases hstr : ip = str
  · simp [hstr]
  · simp [hstr, Ne.symm hstr]

theorem Local.foldl_addToCluster (h : c.Local ip) (words : List String) :
    (words.foldl (DerivedConfig.addToCluster ip) c).Local ip ∧
      (words.foldl (DerivedConfig.addToCluster ip) c).cluster.Perm
        (c.cluster ++ words.filter (· ≠ ip)) := by
  induction words generalizing c with
  | nil => exact ⟨h, by simp⟩
  | cons w words ih =>
    obtain ⟨hw, hperm⟩ := h.addToCluster w
    obtain ⟨hws, hperms⟩ := ih hw
    refine ⟨hws, hperms.trans ((hperm.append_right _).trans (List.Perm.of_eq ?_))⟩
    rw [List.append_assoc, ← List.filter_append]
    rfl

/-- The words that the `--cluster` options of a command line list. -/
def clusterWords (args : List Opt) : List String :=
  args.flatMap fun o => if o.val = .cluster then o.words else []

theorem clusterWords_cons (o : Opt) (args : List Opt) : clusterWords (o :: args) =
    (if o.val = .cluster then o.words else []) ++ clusterWords args :=
  List.flatMap_cons

/-- The options without `add_to_cluster`. -/
theorem parseOpt_of_ne {o : Opt} (ho : o.val ≠ .cluster) (h : c.Local ip)
    (hc : c.parseOpt ip o = .ok c') : c'.Local ip ∧ c'.cluster = c.cluster := by
  unfold parseOpt at hc
  cases hval : o.val with
  | cluster => exact absurd hval ho
  | help =>
    rw [hval] at hc
    cases hc
  | ibPort | gidIdx =>
    simp only [hval] at hc
    split_ifs at hc
    obtain rfl := Except.ok.inj hc
    exact ⟨h, rfl⟩
  | server =>
    rw [hval] at hc
    obtain rfl := Except.ok.inj hc
    exact ⟨Or.inr h.getLocalIp.1, h.getLocalIp.2⟩
  | version | port | ibDev | trafficClass | client | eventChannel | msgSize | num | singleRecv
  | topo | treeWidth | role | master | other =>
    rw [hval] at hc
    obtain rfl := Except.ok.inj hc
    exact ⟨h, rfl⟩

theorem parseOpts_cluster {args : List Opt} (h : c.Local ip)
    (hc : args.foldlM (parseOpt ip) c = .ok c') :
    c'.Local ip ∧ c'.cluster.Perm (c.cluster ++ (clusterWords args).filter (· ≠ ip)) := by
  induction args generalizing c with
  | nil =>
    obtain rfl := Except.pure_eq_ok.1 hc
    exact ⟨h, by simp [clusterWords]⟩
  | cons o args ih =>
    rw [List.foldlM_cons, Except.bind_eq_ok] at hc
    obtain ⟨c₁, h₁, hc⟩ := hc
    by_cases ho : o.val = .cluster
    · have hadd : c₁ = o.words.foldl (addToCluster ip) c := by
        unfold parseOpt at h₁
        rw [ho] at h₁
        exact (Except.ok.inj h₁).symm
      obtain ⟨hloc, hperm⟩ := h.foldl_addToCluster o.words
      rw [← hadd] at hloc hperm
      obtain ⟨hloc', hperm'⟩ := ih hloc hc
      refine ⟨hloc', hperm'.trans ((hperm.append_right _).trans (List.Perm.of_eq ?_))⟩
      rw [List.append_assoc, ← List.filter_append, clusterWords_cons, if_pos ho]
    · obtain ⟨hloc, hcluster⟩ := parseOpt_of_ne ho h h₁
      obtain ⟨hloc', hperm'⟩ := ih hloc hc
      rw [hcluster] at hperm'
      rw [clusterWords_cons, if_neg ho, List.nil_append]
      exact ⟨hloc', hperm'⟩

theorem conflictCheck_cluster (hc : c.conflictCheck ip = .ok c') : c'.cluster = c.cluster := by
  have hlocal (c : DerivedConfig) : (c.getLocalIp ip).cluster = c.cluster := by
    unfold getLocalIp
    split_ifs <;> rfl
  simp only [conflictCheck] at hc
  split_ifs at hc <;> obtain rfl := Except.ok.inj hc <;> first | rfl | exact hlocal _

/-- **The cluster** is what the command line lists, less the own address; an
    address listed several times is kept as often. -/
theorem parseArgs_cluster {args : List Opt} (h : c.Local ip) (hc : c.parseArgs ip args = .ok c') :
    c'.cluster.Perm (c.cluster ++ (clusterWords args).filter (· ≠ ip)) := by
  rw [parseArgs, Except.bind_eq_ok] at hc
  obtain ⟨c₁, h₁, h₂⟩ := hc
  rw [conflictCheck_cluster h₂]
  exact (parseOpts_cluster h h₁).2

/-! ## The option alone -/

/-- `--cluster`, with these words -/
def clusterArgs : List String → List Opt
  | [] => []
  | w :: words => [{ val := .cluster, optarg := w, following := words }]

theorem clusterWords_clusterArgs {words : List String}
    (h : ∀ w ∈ words, w.toList.head? ≠ some '-') : clusterWords (clusterArgs words) = words := by
  cases words with
  | nil => rfl
  | cons w words =>
    have htake : words.takeWhile (fun w => w.toList.head? ≠ some '-') = words :=
      List.takeWhile_eq_self_iff.2 fun w hw => decide_eq_true (h w (List.mem_cons_of_mem _ hw))
    show w :: words.takeWhile _ ++ [] = w :: words
    rw [htake, List.append_nil]

theorem foldl_addToCluster_eq (c : DerivedConfig) (words : List String) :
    ∃ localIp cluster, words.foldl (addToCluster ip) c = { c with localIp, cluster } := by
  induction words generalizing c with
  | nil => exact ⟨c.localIp, c.cluster, rfl⟩
  | cons w words ih =>
    obtain ⟨localIp, cluster, h⟩ := ih (c.addToCluster ip w)
    refine ⟨localIp, cluster, h.trans ?_⟩
    unfold addToCluster getLocalIp
    split_ifs <;> rfl

/-- `parse_args` returns, with the defaults but for the own address, the cluster
    and the number of senders. -/
theorem parseArgs_clusterArgs (words : List String) : ∃ localIp cluster numSenders,
    parseArgs ip {} (clusterArgs words) =
      .ok { ({} : DerivedConfig) with localIp, cluster, numSenders } := by
  have hparse : ∃ localIp cluster, (clusterArgs words).foldlM (parseOpt ip) {} =
      .ok { ({} : DerivedConfig) with localIp, cluster } := by
    cases words with
    | nil => exact ⟨"", [], rfl⟩
    | cons w words =>
      obtain ⟨localIp, cluster, h⟩ := @foldl_addToCluster_eq ip {}
        (Opt.words { val := .cluster, optarg := w, following := words })
      exact ⟨localIp, cluster, congrArg Except.ok h⟩
  obtain ⟨localIp, cluster, h⟩ := hparse
  rw [parseArgs, h]
  show ∃ localIp' cluster' numSenders, conflictCheck ip { localIp, cluster } = _
  by_cases hlen : cluster.length = 0
  · simp only [conflictCheck, hlen, ne_eq, not_true_eq_false, and_false, if_false]
    exact ⟨localIp, cluster, 0, rfl⟩
  · simp only [conflictCheck, hlen, ne_eq, not_false_eq_true, and_true, if_true]
    exact ⟨localIp, cluster, Int32.ofNat cluster.length, rfl⟩

end DerivedConfig

end RdmaCore
