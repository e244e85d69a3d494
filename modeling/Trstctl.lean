import Trstctl.Decommission.Depstate.Tenants
import Trstctl.Decommission.Depstate.SourceBound
import Trstctl.Decommission.Gate.StreamAgreement
import Trstctl.Succession.Minter.Replay
import Trstctl.Accessrules.Postgres.Reported
import Trstctl.Accessrules.Mysql.Reported
import Trstctl.Accessrules.Ssh.Reported
import Trstctl.Crypto.Ca.Lane
import Trstctl.Crypto.Ca.Narrowing
import Trstctl.Rpverify.Interleaving
import Trstctl.Auditanchor.LogCoverage
import Trstctl.Reconcile.Quarantine.Release
import Trstctl.Reconcile.Quarantine.Projection
import Trstctl.Reconcile.Quarantine.Agreement
import Trstctl.Reconcile.Witness.Majority
import Trstctl.Reconcile.Rounds.Agreement
import Trstctl.Reconcile.Rounds.Watermark
import Trstctl.Reconcile.Rounds.Drift
import Trstctl.Auditanchor.SeriesBounds
import Trstctl.Auditanchor.TamperEvidence
import Trstctl.Agentid.Delegation.Validity
import Trstctl.Agentid.Delegation.ChainIdentity
import Trstctl.Agentid.Delegation.Idempotence
import Trstctl.Agentid.Delegation.Budgets
import Trstctl.Agentid.Delegation.RequestDigest
import Trstctl.Tlsvalidity.Validity
import Trstctl.Succession.Delegation.Soundness
import Trstctl.Decommission.Gate.TerminalEpoch
import Trstctl.Breakglass.Offline.Quorum
import Trstctl.Decommission.Aggregate.Inventory
import Trstctl.Approval.Decision
import Trstctl.Approval.Issuance
import Trstctl.Protocols.Acme.Caa
import Trstctl.Transit.Checkpoints
import Trstctl.Kmip.Finality
import Trstctl.Agentid.Revoke.Recovery
import Trstctl.Agentid.Revoke.Interleaving
import Trstctl.Agent.Sshkrl.Install
import Trstctl.Cloudentitlements.Awspolicy.Monotone
import Trstctl.Graph.Grants
import Trstctl.Crypto.Evaluation
import Trstctl.Succession.Commitment
import Trstctl.Succession.Minter.Floors
import Trstctl.Succession.Minter.Highwater
import Trstctl.Crypto.Clamp
import Trstctl.Crypto.Ctlog
import Trstctl.Agentid.Revoke.Aggregate
import Trstctl.Graph.Impact
import Trstctl.Kmip.Ttlv
import Trstctl.Agent.Sshkrl.Stated
import Trstctl.Agentid.Revoke.Copies
import Trstctl.Kmip.Restart
import Trstctl.Graph.Meaning
import Trstctl.Translog.Sizes
import Trstctl.Translog.Log
import Trstctl.Ttlmap.Eviction
import Trstctl.Ttlmap.OcspCache
import Trstctl.Idem.Memory
import Trstctl.Crypto.Seal
import Trstctl.Lifecycle.Window
