import Yeah.Runs
import Yeah.Ssh.Exec
import Yeah.Volume.Backups
import Yeah.Backup.Executions
import Yeah.Backup.Run
import Yeah.Deploy.Redact
import Yeah.Shell.Failure
import Yeah.Databases.Tool
import Yeah.Databases.Dump
import Yeah.Databases.DumpStatus
import Yeah.Databases.Restore
import Yeah.Databases.RestoreStatus
import Yeah.Databases.RestoreReplace
import Yeah.Shell.Simulation
import Yeah.Databases.Server
import Yeah.Databases.Included
import Yeah.Databases.IncludedRestore
import Yeah.Guard.Policy
import Yeah.Platform.Operations
import Yeah.Waker.State
import Yeah.Tables
import Yeah.Waker.Count
import Yeah.Waker.Sweep
import Yeah.Calls
import Yeah.Deploy.Application
import Yeah.Deploy.Command
import Yeah.Deploy.Registry
import Yeah.Deploy.Job
import Yeah.Deploy.Steps
import Yeah.Deploy.Order
import Yeah.Deploy.Verdict
import Yeah.Deploy.Rerun
import Yeah.Deploy.Checkout
import Yeah.Guard.Shed
import Yeah.Platform.Job
import Yeah.Platform.Progress
import Yeah.Platform.Outcome
import Yeah.Provision.Service
import Yeah.Provision.Obeyed
import Yeah.Previews.PullRequests
import Yeah.Shell.Quote
import Yeah.Text.Uuid
import Yeah.Volume.Mounts
import Yeah.Volume.Copies
import Yeah.Yaml.Block
import Yeah.Proxy.Routing
import Yeah.Proxy.Traefik
import Yeah.Proxy.Labels
import Yeah.Proxy.File
import Yeah.Proxy.Agree
import Yeah.Compose.Interpolate
import Yeah.Compose.Override
import Yeah.Compose.Routed
import Yeah.Databases.Ports
import Yeah.Compose.Rows
import Yeah.Volume.Targets
import Yeah.Volume.Restore
import Yeah.Secrets.Encryption
import Yeah.Secrets.Rotation
import Yeah.Sql.Select
import Yeah.Secrets.Stored
import Yeah.Secrets.Rekey
import Yeah.Secrets.Interleaved
import Yeah.Backup.Retention
import Yeah.DualWrite
import Yeah.Schedulers
import Yeah.Environments
import Yeah.Teardown
import Yeah.Accounts.RecoveryCodes
import Yeah.Accounts.Register
import Yeah.Databases.Restores
import Yeah.Events.Route
import Yeah.Events.Stream
import Yeah.Events.Order
import Yeah.Proxy.Conflict
import Yeah.Deploy.EnvFile
import Yeah.Images.Listing
import Yeah.Images.Trim
import Yeah.Images.Cleanup
import Yeah.Deploy.EnvText
import Yeah.Deploy.EnvEditor
import Yeah.Text.Words
import Yeah.Shell.DockerOptions
import Yeah.Shell.PosixWords
import Yeah.Shell.Flags
import Yeah.Deploy.RunOptions
import Yeah.Keyed
import Yeah.Limits.Breaker
import Yeah.Limits.RateLimiter
import Yeah.Events.Watch
import Yeah.Backup.InstanceSchedule
import Yeah.Backup.Instance
import Yeah.Compose.Dotenv
import Yeah.Accounts.Base32
import Yeah.Backup.InstanceRetention
import Yeah.Backup.InstanceGaps
import Yeah.Browser.Paths
import Yeah.Limits.AuditThrottle
import Yeah.Accounts.IpAddress
import Yeah.Accounts.IpAllowlist
import Yeah.Previews.Domain
import Yeah.Services.TemplateEnv
import Yeah.Services.DomainEnv
import Yeah.Compose.Required
import Yeah.Compose.Env
import Yeah.Accounts.Challenges
import Yeah.Doubles
import Yeah.Updates.Tags
import Yeah.Tasks.CappedLog
import Yeah.Drains.CloudWatch
import Yeah.Services.StackFiles
import Yeah.Ssh.Decode
import Yeah.Bytes
import Yeah.Asn1
import Yeah.Ssh.Pem
import Yeah.Ssh.KeyFile
import Yeah.Browser.Listing
import Yeah.Browser.ReadBack
import Yeah.Compose.NamedVolumes
import Yeah.Ssh.Certificate
import Yeah.Noninterference
import Yeah.Tokens.Actions
import Yeah.Tokens.View
import Yeah.Tokens.Mcp
import Yeah.Tokens.Api
import Yeah.Tokens.Isolation
import Yeah.Tokens.ReadOnly
import Yeah.Accounts.Sessions
import Yeah.Services.Maintenance
import Yeah.Relational
import Yeah.Resumption
import Yeah.Teams.Tables
import Yeah.Teams.Routes
import Yeah.Teams.Boundary
import Yeah.Teams.Confinement
import Yeah.Teams.Requests
import Yeah.Teams.Attachments
import Yeah.Teams.Unattended
import Yeah.Teams.Isolation
import Yeah.Events.Revocation
import Yeah.Databases.ConnectionUrl
