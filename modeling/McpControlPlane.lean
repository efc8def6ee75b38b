import McpControlPlane.AuditTamper
import McpControlPlane.AuditExport
import McpControlPlane.RateLimiter
import McpControlPlane.BlastRadius
import McpControlPlane.DecideOnce
import McpControlPlane.SignedCallbacks
import McpControlPlane.AuditedRuns
import McpControlPlane.SlidingWindow
import McpControlPlane.AuditEdits
import McpControlPlane.ApprovalExpiry
import McpControlPlane.ApprovalMachine
import McpControlPlane.SignatureCheck
import McpControlPlane.HashEncoding
import McpControlPlane.ExecutorErrors
import McpControlPlane.RpcErrors
import McpControlPlane.SseHub
import McpControlPlane.PolicyOrder
import McpControlPlane.AuditPaging
import McpControlPlane.AuditNdjson
import McpControlPlane.RequestPaths
import McpControlPlane.CallReports
import McpControlPlane.ServerRuns
import McpControlPlane.ClientOutcomes
import McpControlPlane.ApprovalEvents
import McpControlPlane.ChainedGateway
import McpControlPlane.AuditProgress
