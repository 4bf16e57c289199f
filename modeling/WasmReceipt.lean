import WasmReceipt.CommandLine
import WasmReceipt.Ed25519
import WasmReceipt.Main
import WasmReceipt.Schema
import WasmReceipt.Proofs.Execution.Protocol
import WasmReceipt.Proofs.ModuleOutput.Lines
import WasmReceipt.Proofs.Receipt.Message
import WasmReceipt.Proofs.Receipt.Provenance
import WasmReceipt.Proofs.Receipt.Signing
import WasmReceipt.Proofs.Receipt.Spelling
import WasmReceipt.Proofs.Json.Parts
import WasmReceipt.Proofs.Json.Sorted
import WasmReceipt.Proofs.Json.Canonical
import WasmReceipt.Proofs.Json.Nesting
import WasmReceipt.Proofs.CommandLine.Session
import WasmReceipt.Proofs.CommandLine.Verification
import WasmReceipt.Proofs.CommandLine.Report
import WasmReceipt.Proofs.ContentHash
import WasmReceipt.Proofs.Execution.Job
import WasmReceipt.Proofs.Schema.Agreement
import WasmReceipt.Proofs.CommandLine.Confinement
import WasmReceipt.Proofs.CommandLine.Pipeline
import WasmReceipt.Proofs.ModuleOutput.Pattern
import WasmReceipt.Proofs.ModuleOutput.NormalForm
import WasmReceipt.Proofs.Schema.Faults
import WasmReceipt.Proofs.Json.Refusal
import WasmReceipt.Proofs.Reading
import WasmReceipt.Proofs.Document
import WasmReceipt.Proofs.Execution.Resources
import WasmReceipt.Proofs.Execution.Binding
import WasmReceipt.Proofs.Manifest.Document
import WasmReceipt.Proofs.ModuleOutput.Leftmost
import WasmReceipt.Proofs.Receipt.KeyForm
import WasmReceipt.Proofs.Reporting
import WasmReceipt.Proofs.Config
